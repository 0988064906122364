import Casebook.Definition.Document
import Casebook.Proofs.Computation
import Mathlib.Data.List.Forall2

/-!
# Blocks in any order

The blocks of a document are read one after the other, and what is read so far decides only whether a
project block may still come. `Document.Reads` says what the items of a document amount to, item by
item and without what came before, and a document is read exactly so. Hence a case block is read as if
it were alone, and a project block may stand anywhere among the others.
-/

namespace Casebook

open Casebook.Computation

/-! ## Items -/

namespace Block

/-- The item of a document that a block is written as. -/
def item (b : Block) : Value :=
  .object [(b.key, b.body)]

/-- Whether an item of a document is a block with some key. -/
def isItem (key : String) : Value → Bool
  | .object [(k, _)] => k == key
  | _ => false

@[simp] theorem isItem_item (key : String) (b : Block) : isItem key b.item = (b.key == key) :=
  rfl

section

variable {location : String} {number : ℕ} {items : List Value} {blocks : List Block} {v : Value}

theorem ofItem_eq_ok_iff {b : Block} : ofItem location number v = .ok b ↔ v = b.item := by
  unfold ofItem
  split
  · next key body =>
    rw [Except.ok.injEq]
    constructor
    · rintro rfl
      rfl
    · intro h
      cases h
      rfl
  · next hother =>
    refine ⟨nofun, ?_⟩
    rintro rfl
    exact absurd rfl (hother b.key b.body)

theorem ofItems_eq_ok_iff :
    ofItems location number items = .ok blocks ↔ items = blocks.map item := by
  induction items generalizing number blocks with
  | nil => cases blocks <;> simp [ofItems]
  | cons first rest ih =>
    rw [ofItems]
    simp only [bind_eq_ok, ofItem_eq_ok_iff, ih, pure_eq_ok]
    constructor
    · rintro ⟨b, rfl, more, rfl, rfl⟩
      rfl
    · intro h
      obtain ⟨b, more, rfl, rfl, rfl⟩ := List.map_eq_cons_iff.mp h.symm
      exact ⟨b, rfl, more, rfl, rfl⟩

theorem ofDocument_eq_ok_iff :
    ofDocument location v = .ok blocks ↔ blocks ≠ [] ∧ v = .array (blocks.map item) := by
  unfold ofDocument
  split
  · cases blocks <;> simp
  · simp
  · next items hne =>
    rw [ofItems_eq_ok_iff, Value.array.injEq]
    refine ⟨fun h => ⟨?_, h⟩, And.right⟩
    rintro rfl
    exact hne h
  · next hother =>
    refine ⟨nofun, ?_⟩
    rintro ⟨-, rfl⟩
    exact absurd rfl (hother _)

end

end Block

namespace Document

/-! ## Reading item by item -/

section

variable {path : String} {limit : ℕ}

/-- What items of a document amount to: the project of a project block, if there is one, and the
entries of the case blocks. -/
inductive Reads (path : String) (limit : ℕ) : List Value → Option Project → List Entry → Prop
  | nil : Reads path limit [] none []
  | project {key : String} {body : Value} {p : Project} {items : List Value} {entries : List Entry}
      (hkey : key = "project") (hbody : Project.ofBody path body = .ok p)
      (hrest : Reads path limit items none entries) :
      Reads path limit (Block.item ⟨key, body⟩ :: items) (some p) entries
  | case {key : String} {body : Value} {e : Entry} {items : List Value} {project : Option Project}
      {entries : List Entry} (hkey : key = "case") (hbody : Entry.ofBody path limit body = .ok e)
      (hrest : Reads path limit items project entries) :
      Reads path limit (Block.item ⟨key, body⟩ :: items) project (e :: entries)

variable {items before after : List Value} {project : Option Project} {entries : List Entry}

/-- What is read are blocks. -/
theorem Reads.exists_blocks (h : Reads path limit items project entries) :
    ∃ blocks : List Block, items = blocks.map Block.item := by
  induction h with
  | nil => exact ⟨[], rfl⟩
  | project _ _ _ ih =>
    obtain ⟨blocks, rfl⟩ := ih
    exact ⟨_ :: blocks, rfl⟩
  | case _ _ _ ih =>
    obtain ⟨blocks, rfl⟩ := ih
    exact ⟨_ :: blocks, rfl⟩

/-- A block is a project block, if none was read before, or a case block. -/
theorem addBlock_eq_ok_iff {done done' : Progress} {b : Block} :
    addBlock path limit done b = .ok done' ↔
      (b.key = "project" ∧ done.project = none ∧
        ∃ p, Project.ofBody path b.body = .ok p ∧ done' = ⟨some p, done.entries⟩) ∨
      (b.key = "case" ∧
        ∃ e, Entry.ofBody path limit b.body = .ok e ∧
          done' = ⟨done.project, done.entries ++ [e]⟩) := by
  unfold addBlock
  by_cases hproject : b.key = "project"
  · rw [if_pos hproject]
    cases hdone : done.project with
    | none => simp [hproject, bind_eq_ok, @eq_comm _ done', -bind_pure_comp]
    | some p => simp [hproject, bind_eq_ok]
  · rw [if_neg hproject]
    by_cases hcase : b.key = "case"
    · simp [hcase, bind_eq_ok, @eq_comm _ done', -bind_pure_comp]
    · simp [hproject, hcase]

/-- A run over blocks adds what they amount to, and this is no project if there was one before. -/
theorem foldlM_addBlock_eq_ok_iff {blocks : List Block} {done done' : Progress} :
    blocks.foldlM (addBlock path limit) done = .ok done' ↔
      ∃ project entries, Reads path limit (blocks.map Block.item) project entries ∧
        (done.project = none ∨ project = none) ∧
        done' = ⟨done.project.or project, done.entries ++ entries⟩ := by
  induction blocks generalizing done with
  | nil =>
    rw [List.foldlM_nil, pure_eq_ok]
    constructor
    · rintro rfl
      exact ⟨none, [], .nil, .inr rfl, by simp⟩
    · rintro ⟨project, entries, _ | _ | _, -, rfl⟩
      simp
  | cons b rest ih =>
    rw [List.foldlM_cons, bind_eq_ok]
    simp only [ih, addBlock_eq_ok_iff]
    constructor
    · rintro ⟨_, ⟨hkey, hnone, p, hbody, rfl⟩ | ⟨hkey, e, hbody, rfl⟩, project, entries, hrest,
        hone, rfl⟩
      · obtain rfl : project = none := by simpa using hone
        exact ⟨some p, entries, .project hkey hbody hrest, .inl hnone, by simp [hnone]⟩
      · exact ⟨project, e :: entries, .case hkey hbody hrest, hone, by simp⟩
    · rintro ⟨project, entries, _ | ⟨hkey, hbody, hrest⟩ | ⟨hkey, hbody, hrest⟩, hone, rfl⟩
      · have hnone : done.project = none := by simpa using hone
        exact ⟨_, .inl ⟨hkey, hnone, _, hbody, rfl⟩, none, _, hrest, .inr rfl, by simp [hnone]⟩
      · exact ⟨_, .inr ⟨hkey, _, hbody, rfl⟩, _, _, hrest, hone, by simp⟩

/-- A document is read if it has items and they are read one by one. -/
theorem parse_eq_ok_iff {v : Value} {d : Document} :
    parse path limit v = .ok d ↔
      ∃ items project entries, v = .array items ∧ items ≠ [] ∧
        Reads path limit items project entries ∧
        d = ⟨path, project.getD (Project.ofPath path), entries⟩ := by
  unfold parse
  simp only [bind_eq_ok, Block.ofDocument_eq_ok_iff, foldlM_addBlock_eq_ok_iff, pure_eq_ok]
  constructor
  · rintro ⟨blocks, ⟨hne, rfl⟩, _, ⟨project, entries, hreads, -, rfl⟩, rfl⟩
    exact ⟨_, project, entries, rfl, mt List.map_eq_nil_iff.mp hne, hreads, rfl⟩
  · rintro ⟨items, project, entries, rfl, hne, hreads, rfl⟩
    obtain ⟨blocks, rfl⟩ := hreads.exists_blocks
    exact ⟨blocks, ⟨mt List.map_eq_nil_iff.mpr hne, rfl⟩, _,
      ⟨project, entries, hreads, .inl trivial, rfl⟩, rfl⟩

/-! ## Where blocks stand -/

/-- The entries are those of the case blocks. -/
theorem Reads.forall₂_cases (h : Reads path limit items project entries) :
    List.Forall₂ (fun item e => Reads path limit [item] none [e])
      (items.filter (Block.isItem "case")) entries := by
  induction h with
  | nil => exact .nil
  | project hkey _ _ ih =>
    subst hkey
    exact ih
  | case hkey hbody _ ih =>
    subst hkey
    exact .cons (.case rfl hbody .nil) ih

/-- The project is that of the one project block. -/
theorem Reads.countP_project (h : Reads path limit items project entries) :
    items.countP (Block.isItem "project") = project.toList.length := by
  induction h with
  | nil => rfl
  | project hkey _ _ ih => simpa [hkey] using ih
  | case hkey _ _ ih => simpa [hkey] using ih

/-- Wherever a project block stands, it gives the project and the other blocks give none. -/
theorem reads_insert_project_iff {body : Value} :
    Reads path limit (before ++ Block.item ⟨"project", body⟩ :: after) project entries ↔
      ∃ p, Project.ofBody path body = .ok p ∧ project = some p ∧
        Reads path limit (before ++ after) none entries := by
  induction before generalizing project entries with
  | nil =>
    constructor
    · rintro (_ | ⟨-, hbody, hrest⟩ | ⟨hkey, -, -⟩)
      · exact ⟨_, hbody, rfl, hrest⟩
      · exact absurd hkey (by decide)
    · rintro ⟨p, hbody, rfl, hrest⟩
      exact .project rfl hbody hrest
  | cons item before ih =>
    constructor
    · rintro (_ | ⟨-, -, hrest⟩ | ⟨hkey, hcase, hrest⟩)
      · -- A project block before this one leaves no room for it.
        obtain ⟨_, _, hnone, _⟩ := ih.mp hrest
        cases hnone
      · obtain ⟨p, hbody, rfl, hothers⟩ := ih.mp hrest
        exact ⟨p, hbody, rfl, .case hkey hcase hothers⟩
    · rintro ⟨p, hbody, rfl, hrest⟩
      rcases hrest with _ | _ | ⟨hkey, hcase, hrest⟩
      exact .case hkey hcase (ih.mpr ⟨p, hbody, rfl, hrest⟩)

/-- A document with a project block is read with the project of that block and with the entries of
the other blocks, which do not depend on where it stands. -/
theorem parse_insert_project_eq_ok_iff {body : Value} {d : Document} :
    parse path limit (.array (before ++ Block.item ⟨"project", body⟩ :: after)) = .ok d ↔
      ∃ p entries, Project.ofBody path body = .ok p ∧
        Reads path limit (before ++ after) none entries ∧ d = ⟨path, p, entries⟩ := by
  rw [parse_eq_ok_iff]
  constructor
  · rintro ⟨_, _, entries, hitems, -, hreads, rfl⟩
    cases hitems
    obtain ⟨p, hbody, rfl, hothers⟩ := reads_insert_project_iff.mp hreads
    exact ⟨p, entries, hbody, hothers, rfl⟩
  · rintro ⟨p, entries, hbody, hothers, rfl⟩
    exact ⟨_, some p, entries, rfl, by simp,
      reads_insert_project_iff.mpr ⟨p, hbody, rfl, hothers⟩, rfl⟩

end

/-- The entries of a document are those of its case blocks, in their number and order, and each is
that of the block alone in a document at the same path. The project block may stand anywhere: a
document is read if it is read with the project block at another place, and as the same. With more than
one project block it is not read. -/
theorem project_block_stands_anywhere (path : String) (limit : ℕ) :
    (∀ v d, parse path limit v = .ok d → ∃ items, v = .array items ∧
      List.Forall₂ (fun item e =>
          parse path limit (.array [item]) = .ok ⟨path, Project.ofPath path, [e]⟩)
        (items.filter (Block.isItem "case")) d.entries) ∧
    (∀ body before after before' after' d, before ++ after = before' ++ after' →
      (parse path limit (.array (before ++ Block.item ⟨"project", body⟩ :: after)) = .ok d ↔
        parse path limit (.array (before' ++ Block.item ⟨"project", body⟩ :: after')) = .ok d)) ∧
    ∀ items, 1 < items.countP (Block.isItem "project") →
      ∃ e, parse path limit (.array items) = .error e := by
  refine ⟨fun v d h => ?_, fun body before after before' after' d hothers => ?_,
    fun items hmore => ?_⟩
  · obtain ⟨items, _, entries, rfl, -, hreads, rfl⟩ := parse_eq_ok_iff.mp h
    refine ⟨items, rfl, hreads.forall₂_cases.imp fun item e halone => ?_⟩
    exact parse_eq_ok_iff.mpr ⟨_, none, [e], rfl, List.cons_ne_nil _ _, halone, rfl⟩
  · rw [parse_insert_project_eq_ok_iff, parse_insert_project_eq_ok_iff, hothers]
  · cases hparse : parse path limit (.array items) with
    | error e => exact ⟨e, rfl⟩
    | ok d =>
      obtain ⟨_, project, _, hitems, -, hreads, -⟩ := parse_eq_ok_iff.mp hparse
      cases hitems
      have hone : project.toList.length ≤ 1 := Option.length_toList_le
      have hcount := hreads.countP_project
      omega

/-- A case block without more than a name and a description. -/
def plainCase (id : String) : Value :=
  .object [("case", .object [("desc", .string "d"), ("id", .string id)])]

/-- A project block without more than a name. -/
def plainProject (name : String) : Value :=
  .object [("project", .object [("name", .string name)])]

/-- A project block between two cases and before them. -/
theorem project_block_stands_anywhere_between :
    ∃ d, parse "t.yaml" 32 (.array [plainCase "A", plainProject "P", plainCase "B"]) = .ok d ∧
      d.project.name = "P" ∧
      List.Forall₂ (fun item e =>
          parse "t.yaml" 32 (.array [item]) = .ok ⟨"t.yaml", Project.ofPath "t.yaml", [e]⟩)
        [plainCase "A", plainCase "B"] d.entries ∧
      parse "t.yaml" 32 (.array [plainProject "P", plainCase "A", plainCase "B"]) = .ok d ∧
      ∃ e, parse "t.yaml" 32 (.array [plainProject "P", plainCase "A", plainProject "Q"]) =
        .error e := by
  obtain ⟨hcases, hmoved, htwo⟩ := project_block_stands_anywhere "t.yaml" 32
  have hread : parse "t.yaml" 32 (.array [plainCase "A", plainProject "P", plainCase "B"]) =
      .ok ⟨"t.yaml", ⟨"P", Project.defaultModule, none⟩,
        [.case (Case.blank "A" "d"), .case (Case.blank "B" "d")]⟩ := rfl
  obtain ⟨items, hitems, halone⟩ := hcases _ _ hread
  cases hitems
  refine ⟨_, hread, rfl, halone, ?_, htwo _ (by decide)⟩
  exact (hmoved _ [plainCase "A"] [plainCase "B"] [] [plainCase "A", plainCase "B"] _ rfl).mp hread

end Document

end Casebook
