import Casebook.Composition.Composer
import Casebook.Proofs.Computation
import Casebook.Proofs.Dictionary

/-!
# Libraries are complete

A library is read document by document, and fragment by fragment it is put together. Any document
that cannot be read, and any name that two fragments share, ends the reading without a library. So
what is read at all holds every fragment beneath the folder, each once and under its own name.
-/

namespace Casebook.Library

open Computation

/-- A fragment under its name. -/
def entry (f : Fragment) : String × Fragment :=
  (f.head.name, f)

/-- All fragments of a kind in the documents beneath a folder, in order. -/
def fragmentsIn (files : Files) (kind : FragmentKind) (limit : ℕ) (folder : String) :
    Except Error (List Fragment) := do
  let paths ← Source.definitionsIn files folder
  let documents ← paths.mapM (Source.readFragments files kind limit)
  return documents.flatten

/-- A library holds every fragment of a kind beneath a folder under its name, which no two of them
share, and holds nothing else. -/
def IsIndex (files : Files) (kind : FragmentKind) (limit : ℕ) (folder : String) (l : Library) :
    Prop :=
  ∃ fragments, fragmentsIn files kind limit folder = .ok fragments ∧
    (fragments.map fun f => f.head.name).Nodup ∧ l.Perm (fragments.map entry)

variable {files : Files} {kind : FragmentKind} {limit : ℕ} {folder : String} {l l' : Library}

/-! ## Adding fragments -/

theorem add_eq_ok_iff {f : Fragment} :
    add kind l f = .ok l' ↔ l.get? f.head.name = none ∧ l.insert f.head.name f = l' := by
  unfold add
  cases l.get? f.head.name <;> simp

/-- Fragments can be added if their names are free and no two of them are the same. -/
theorem foldlM_add_eq_ok_iff {fragments : List Fragment} :
    fragments.foldlM (add kind) l = .ok l' ↔
      (∀ f ∈ fragments, l.get? f.head.name = none) ∧
        (fragments.map fun f => f.head.name).Nodup ∧ l.insertAll (fragments.map entry) = l' := by
  induction fragments generalizing l with
  | nil => simp [Dict.insertAll]
  | cons f rest ih =>
    rw [List.foldlM_cons, bind_eq_ok, List.forall_mem_cons, List.map_cons, List.nodup_cons]
    -- Behind the first fragment its name is taken, and all other names are as free as before.
    have hrest : (∀ other ∈ rest, (l.insert f.head.name f).get? other.head.name = none) ↔
        (∀ other ∈ rest, l.get? other.head.name = none) ∧
          f.head.name ∉ rest.map fun f => f.head.name := by
      have hone (other : Fragment) : (l.insert f.head.name f).get? other.head.name = none ↔
          l.get? other.head.name = none ∧ other.head.name ≠ f.head.name := by
        by_cases hname : f.head.name = other.head.name
        · simp [← hname]
        · simp [Dict.get?_insert_of_ne l f hname, Ne.symm hname]
      simp only [hone, List.mem_map, not_exists, not_and]
      exact ⟨fun h => ⟨fun other hother => (h other hother).1, fun other hother => (h other hother).2⟩,
        fun h other hother => ⟨h.1 other hother, h.2 other hother⟩⟩
    constructor
    · rintro ⟨l₁, hadd, hmore⟩
      obtain ⟨hfree, rfl⟩ := add_eq_ok_iff.mp hadd
      obtain ⟨hothers, hnodup, hall⟩ := ih.mp hmore
      obtain ⟨hothers, hname⟩ := hrest.mp hothers
      exact ⟨⟨hfree, hothers⟩, ⟨hname, hnodup⟩, hall⟩
    · rintro ⟨⟨hfree, hothers⟩, ⟨hname, hnodup⟩, hall⟩
      exact ⟨_, add_eq_ok_iff.mpr ⟨hfree, rfl⟩, ih.mpr ⟨hrest.mpr ⟨hothers, hname⟩, hnodup, hall⟩⟩

/-- Adding the fragments of documents one document after another is adding all of them. -/
theorem foldlM_addDocument_eq_ok_iff {paths : List String} :
    paths.foldlM (addDocument files kind limit) l = .ok l' ↔
      ∃ documents, paths.mapM (Source.readFragments files kind limit) = .ok documents ∧
        documents.flatten.foldlM (add kind) l = .ok l' := by
  induction paths generalizing l with
  | nil => simp
  | cons path paths ih =>
    rw [List.foldlM_cons, bind_eq_ok, List.mapM_cons]
    simp only [bind_eq_ok, pure_eq_ok, addDocument, ih]
    constructor
    · rintro ⟨l₁, ⟨fragments, hread, hadd⟩, documents, hdocuments, hmore⟩
      refine ⟨fragments :: documents, ⟨fragments, hread, documents, hdocuments, rfl⟩, ?_⟩
      rw [List.flatten_cons, List.foldlM_append]
      exact bind_eq_ok.mpr ⟨l₁, hadd, hmore⟩
    · rintro ⟨_, ⟨fragments, hread, documents, hdocuments, rfl⟩, hall⟩
      rw [List.flatten_cons, List.foldlM_append] at hall
      obtain ⟨l₁, hadd, hmore⟩ := bind_eq_ok.mp hall
      exact ⟨l₁, ⟨fragments, hread, hadd⟩, documents, hdocuments, hmore⟩

/-! ## Reading -/

/-- A library is read if all fragments can be, and no two of them have the same name. -/
theorem read_eq_ok_iff :
    read files kind limit folder = .ok l ↔
      ∃ fragments, fragmentsIn files kind limit folder = .ok fragments ∧
        (fragments.map fun f => f.head.name).Nodup ∧ Dict.ofList (fragments.map entry) = l := by
  have hnone (fragments : List Fragment) :
      ∀ f ∈ fragments, Dict.get? ([] : Library) f.head.name = none := fun _ _ => rfl
  simp only [read, fragmentsIn, bind_eq_ok, pure_eq_ok, foldlM_addDocument_eq_ok_iff,
    foldlM_add_eq_ok_iff]
  constructor
  · rintro ⟨paths, hpaths, documents, hdocuments, -, hnodup, hall⟩
    exact ⟨_, ⟨paths, hpaths, documents, hdocuments, rfl⟩, hnodup, hall⟩
  · rintro ⟨_, ⟨paths, hpaths, documents, hdocuments, rfl⟩, hnodup, hall⟩
    exact ⟨paths, hpaths, documents, hdocuments, hnone _, hnodup, hall⟩

/-- What is read is never a part of the fragments only. -/
theorem isIndex_of_read (h : read files kind limit folder = .ok l) :
    IsIndex files kind limit folder l := by
  obtain ⟨fragments, hread, hnodup, rfl⟩ := read_eq_ok_iff.mp h
  have hkeys : ((fragments.map entry).map Prod.fst).Nodup := by rwa [List.map_map]
  exact ⟨fragments, hread, hnodup, Dict.ofList_perm hkeys⟩

/-- A fragment that is found in a library was read from a document. -/
theorem mem_of_get?_read (h : read files kind limit folder = .ok l) {name : String} {f : Fragment}
    (hget : l.get? name = some f) :
    f.head.name = name ∧ ∃ path document,
      Source.readFragments files kind limit path = .ok document ∧ f ∈ document := by
  obtain ⟨fragments, hread, -, hperm⟩ := isIndex_of_read h
  obtain ⟨paths, -, hread⟩ := bind_eq_ok.mp hread
  obtain ⟨documents, hdocuments, hread⟩ := bind_eq_ok.mp hread
  obtain rfl := pure_eq_ok.mp hread
  obtain ⟨f', hf', hentry⟩ := List.mem_map.mp (hperm.mem_iff.mp (Dict.mem_of_get? hget))
  obtain ⟨rfl, rfl⟩ := Prod.mk.inj hentry
  obtain ⟨document, hdocument, hmem⟩ := List.mem_flatten.mp hf'
  obtain ⟨path, -, hpath⟩ := exists_of_mem_mapM hdocuments hdocument
  exact ⟨rfl, path, document, hpath, hmem⟩

end Casebook.Library

/-! ## What a composer looks up -/

namespace Casebook.Composer

open Computation Composition

section

variable (files : Files) (c : Composer)

/-- The fragments of a kind that a composer goes by: those it read before, or those it reads now. -/
def index (kind : FragmentKind) : Except Error Library :=
  match c.library? kind with
  | some l => .ok l
  | none => Library.read files kind c.layout.depth (c.folder kind)

/-- A composer once it was asked for the fragments of a kind: it keeps them, if there are any. -/
def indexed (kind : FragmentKind) : Composer :=
  match c.index files kind with
  | .ok l => c.keep kind l
  | .error _ => c

/-- The fragment that a composer finds under a name. -/
def lookup (kind : FragmentKind) (name : String) : Except Error Fragment := do
  match (← c.index files kind).get? name with
  | some f => return f
  | none => throw (.unresolved kind.name name [c.folder kind])

/-- The execution fields that a composer finds for a reference. -/
def fieldsFor (r : Reference) : Except Error ExecutionFields := do
  let f ← c.lookup files .api r.name
  let body ← f.instantiate r
  ExecutionFields.ofApiBody s!"{f.path} api '{f.head.name}'" c.layout.depth body

end

variable {files : Files} {c : Composer} {kind : FragmentKind}

@[simp] theorem library?_keep (c : Composer) (kind : FragmentKind) (l : Library) :
    (c.keep kind l).library? kind = some l := by
  cases kind <;> rfl

theorem library?_keep_of_ne {kind kind' : FragmentKind} (h : kind ≠ kind') (c : Composer)
    (l : Library) : (c.keep kind l).library? kind' = c.library? kind' := by
  cases kind <;> cases kind' <;> first | rfl | exact absurd rfl h

@[simp] theorem layout_keep (c : Composer) (kind : FragmentKind) (l : Library) :
    (c.keep kind l).layout = c.layout := by
  cases kind <;> rfl

@[simp] theorem area_keep (c : Composer) (kind : FragmentKind) (l : Library) :
    (c.keep kind l).area = c.area := by
  cases kind <;> rfl

@[simp] theorem expanded_keep (c : Composer) (kind : FragmentKind) (l : Library) :
    (c.keep kind l).expanded = c.expanded := by
  cases kind <;> rfl

theorem keep_of_library? {l : Library} (h : c.library? kind = some l) : c.keep kind l = c := by
  obtain ⟨area, layout, apis, suites, expanded⟩ := c
  cases kind
  · obtain rfl : apis = some l := h
    rfl
  · obtain rfl : suites = some l := h
    rfl

theorem indexed_of_ok {l : Library} (h : c.index files kind = .ok l) :
    c.indexed files kind = c.keep kind l := by
  rw [indexed, h]

theorem indexed_of_error {e : Error} (h : c.index files kind = .error e) :
    c.indexed files kind = c := by
  rw [indexed, h]

/-- Once they were read, the fragments are no longer read from files. -/
theorem library?_indexed {l : Library} (h : c.index files kind = .ok l) :
    (c.indexed files kind).library? kind = some l := by
  rw [indexed_of_ok h, library?_keep]

theorem layout_indexed (c : Composer) (files : Files) (kind : FragmentKind) :
    (c.indexed files kind).layout = c.layout := by
  unfold indexed
  split <;> simp

theorem folder_indexed (c : Composer) (files : Files) (kind kind' : FragmentKind) :
    (c.indexed files kind).folder kind' = c.folder kind' := by
  have harea : (c.indexed files kind).area = c.area := by
    unfold indexed
    split <;> simp
  rw [folder, folder, layout_indexed, harea]

theorem exec_composer (s : Composition) : exec Composing.composer s = (.ok s.composer, s) :=
  rfl

theorem exec_lift {α : Type} (result : Except Error α) (s : Composition) :
    exec (Composing.lift result) s = (result, s) :=
  rfl

theorem exec_library (kind : FragmentKind) (s : Composition) :
    exec (library files kind) s =
      (s.composer.index files kind, { s with composer := s.composer.indexed files kind }) := by
  unfold library
  rw [exec_bind_of_ok (exec_composer s)]
  cases hl : s.composer.library? kind with
  | some l =>
    have hindex : s.composer.index files kind = .ok l := by rw [index, hl]
    rw [indexed_of_ok hindex, keep_of_library? hl, hindex]
    rfl
  | none =>
    have hindex : s.composer.index files kind =
        Library.read files kind s.composer.layout.depth (s.composer.folder kind) := by
      rw [index, hl]
    rw [indexed, hindex]
    cases Library.read files kind s.composer.layout.depth (s.composer.folder kind) <;> rfl

theorem exec_fragment (kind : FragmentKind) (name : String) (s : Composition) :
    exec (fragment files kind name) s =
      (s.composer.lookup files kind name,
        { s with composer := s.composer.indexed files kind }) := by
  unfold fragment lookup
  rw [exec_bind, exec_library]
  cases s.composer.index files kind with
  | error e => rfl
  | ok l =>
    simp only [ok_bind]
    cases l.get? name with
    | some f => rfl
    | none => rw [← folder_indexed s.composer files kind kind]; rfl

/-- Merging lays over a case the fields that the composer finds for the reference, and does nothing
to the composer but that it keeps the fragments. -/
theorem exec_mergeApi (base : Case) (r : Reference) (s : Composition) :
    exec (mergeApi files base r) s =
      ((s.composer.fieldsFor files r).map fun fields => fields.overlay base,
        { s with composer := s.composer.indexed files .api }) := by
  unfold mergeApi fieldsFor
  rw [exec_bind, exec_fragment]
  cases s.composer.lookup files .api r.name with
  | error e => rfl
  | ok f =>
    simp only [ok_bind]
    rw [exec_bind, exec_lift]
    cases f.instantiate r with
    | error e => rfl
    | ok body =>
      simp only [ok_bind]
      rw [exec_bind_of_ok (exec_composer _), exec_bind, exec_lift, layout_indexed]
      cases ExecutionFields.ofApiBody s!"{f.path} api '{f.head.name}'" s.composer.layout.depth body
        <;> rfl

end Casebook.Composer
