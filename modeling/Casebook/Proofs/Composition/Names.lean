import Casebook.Composition.Loading
import Casebook.Proofs.Computation
import Mathlib.Data.List.Nodup

/-!
# Names of cases

The display name of a case is its id with its description in brackets behind it, where characters
that no file name may hold are replaced. Different descriptions may become the same text, but ids
stay what they are: no character of an id is replaced, and none is a bracket. So the id is the part
of the name in front of its first bracket, and the names of a run are as different as its ids.
-/

namespace Casebook

open Computation

namespace Text

theorem isIllegalInFileName_underscore : isIllegalInFileName '_' = false := by
  decide

/-- A file name is legal once the illegal characters are replaced. -/
theorem legalFileName_legalFileName (s : String) :
    legalFileName (legalFileName s) = legalFileName s := by
  unfold legalFileName
  rw [String.toList_ofList, List.map_map]
  congr 2
  funext c
  simp only [Function.comp]
  split
  · rw [isIllegalInFileName_underscore]
    rfl
  · rfl

end Text

namespace Case

/-! ## Ids -/

/-- What an id is made of is neither replaced in a file name nor a bracket. -/
theorem isIdChar_eq_false {c : Char} (h : Text.isIllegalInFileName c = true ∨ c = '[') :
    isIdChar c = false := by
  rcases h with h | rfl
  · have hnone : ['\\', '/', ':', '*', '?', '"', '<', '>', '|', '\r', '\n', '\t'].all
        (fun x => !isIdChar x) = true := by decide
    rw [Text.isIllegalInFileName, decide_eq_true_eq] at h
    simpa using List.all_eq_true.mp hnone c h
  · decide

theorem isIdChar_of_isValidId {id : String} (h : isValidId id = true) :
    ∀ c ∈ id.toList, isIdChar c = true := by
  rw [isValidId, Bool.and_eq_true] at h
  exact List.all_eq_true.mp h.2

theorem fault?_eq_none_iff {seen : List String} {c : Case} :
    fault? seen c = none ↔ isValidId c.id = true ∧ c.steps ≠ [] ∧ c.id ∉ seen := by
  unfold fault?
  cases isValidId c.id <;> cases hsteps : c.steps <;> by_cases hseen : c.id ∈ seen <;>
    simp [hseen]

/-- Cases are valid behind others if they have ids and steps, and no id is one of those seen before
or that of another case. -/
theorem validateFrom_eq_ok_iff {seen : List String} {cases : List Case} :
    validateFrom seen cases = .ok () ↔
      (∀ c ∈ cases, isValidId c.id = true ∧ c.steps ≠ [] ∧ c.id ∉ seen) ∧
        (cases.map Case.id).Nodup := by
  induction cases generalizing seen with
  | nil => simp [validateFrom]
  | cons c rest ih =>
    rw [validateFrom, List.forall_mem_cons, List.map_cons, List.nodup_cons]
    cases hfault : fault? seen c with
    | some e =>
      refine iff_of_false nofun fun h => ?_
      rw [fault?_eq_none_iff.mpr h.1.1] at hfault
      cases hfault
    | none =>
      have hc := fault?_eq_none_iff.mp hfault
      -- No id behind it is among those seen before, and none is its own.
      have hsplit : (∀ d ∈ rest, isValidId d.id = true ∧ d.steps ≠ [] ∧ d.id ∉ c.id :: seen) ↔
          (∀ d ∈ rest, isValidId d.id = true ∧ d.steps ≠ [] ∧ d.id ∉ seen) ∧
            c.id ∉ rest.map Case.id := by
        simp only [List.mem_cons, not_or, List.mem_map, not_exists, not_and]
        constructor
        · intro h
          exact ⟨fun d hd => ⟨(h d hd).1, (h d hd).2.1, (h d hd).2.2.2⟩,
            fun d hd => (h d hd).2.2.1⟩
        · intro h d hd
          exact ⟨(h.1 d hd).1, (h.1 d hd).2.1, h.2 d hd, (h.1 d hd).2.2⟩
      rw [ih, hsplit, and_assoc]
      exact ⟨fun h => ⟨⟨hc, h.1⟩, h.2⟩, fun h => ⟨h.1.2, h.2⟩⟩

theorem validate_eq_ok_iff {cases : List Case} :
    validate cases = .ok () ↔
      (∀ c ∈ cases, isValidId c.id = true ∧ c.steps ≠ []) ∧ (cases.map Case.id).Nodup := by
  rw [validate, validateFrom_eq_ok_iff]
  simp

/-! ## Names -/

/-- The id in a display name: what stands in front of the first bracket. -/
def idInName (name : String) : String :=
  String.ofList (name.toList.takeWhile (· ≠ '['))

/-- A valid id stays what it is in a name, and the first bracket follows it. -/
theorem exists_toList_name {c : Case} (h : isValidId c.id = true) :
    ∃ rest, c.name.toList = c.id.toList ++ '[' :: rest := by
  let legal (x : Char) : Char := if Text.isIllegalInFileName x then '_' else x
  refine ⟨(c.desc.toList ++ [']']).map legal, ?_⟩
  have hid : c.id.toList.map legal = c.id.toList := by
    refine (List.map_congr_left fun x hx => ?_).trans (List.map_id c.id.toList)
    have hchar := isIdChar_of_isValidId h x hx
    refine if_neg fun hillegal => ?_
    rw [isIdChar_eq_false (.inl hillegal)] at hchar
    cases hchar
  have hname : (s!"{c.id}[{c.desc}]").toList = c.id.toList ++ '[' :: (c.desc.toList ++ [']']) := by
    simp [toString, String.toList_append]
  rw [name, Text.legalFileName, String.toList_ofList, hname, List.map_append, hid]
  rfl

theorem idInName_name {c : Case} (h : isValidId c.id = true) : idInName c.name = c.id := by
  obtain ⟨rest, hname⟩ := exists_toList_name h
  have hbefore : ∀ x ∈ c.id.toList, decide (x ≠ '[') = true := by
    intro x hx
    have hchar := isIdChar_of_isValidId h x hx
    rw [decide_eq_true_eq]
    rintro rfl
    rw [isIdChar_eq_false (.inr rfl)] at hchar
    cases hchar
  rw [idInName, hname, List.takeWhile_append_of_pos hbefore, List.takeWhile_cons_of_neg (by decide),
    List.append_nil, String.ofList_toList]

end Case

/-- The cases of a run have names of their own, whatever their descriptions are and whichever
testsets they belong to. Each name may be that of a file as it is, and the id of the case is what
stands in front of its first bracket. -/
theorem TestSet.nodup_names_of_loadAll {files : Files} {layout : Layout} {paths : List String}
    {testsets : List TestSet} (h : loadAll files layout paths = .ok testsets) :
    ((testsets.flatMap TestSet.cases).map Case.name).Nodup ∧
      ∀ c ∈ testsets.flatMap TestSet.cases, '[' ∈ c.name.toList ∧
        Case.idInName c.name = c.id ∧ Text.legalFileName c.name = c.name := by
  obtain ⟨l, hload, h⟩ := bind_eq_ok.mp h
  obtain ⟨_, hvalid, h⟩ := bind_eq_ok.mp h
  cases h
  obtain ⟨hcases, hids⟩ := Case.validate_eq_ok_iff.mp hvalid
  have hid : ∀ c ∈ l.testsets.flatMap TestSet.cases, Case.idInName c.name = c.id :=
    fun c hc => Case.idInName_name (hcases c hc).1
  constructor
  · -- Cases of one name would have one id.
    have hread : ((l.testsets.flatMap TestSet.cases).map Case.name).map Case.idInName =
        (l.testsets.flatMap TestSet.cases).map Case.id := by
      rw [List.map_map]
      exact List.map_congr_left hid
    rw [← hread] at hids
    exact hids.of_map
  · intro c hc
    obtain ⟨rest, hname⟩ := Case.exists_toList_name (hcases c hc).1
    refine ⟨?_, hid c hc, Text.legalFileName_legalFileName _⟩
    rw [hname]
    exact List.mem_append_right _ List.mem_cons_self

/-- Two testsets of one case each, whose descriptions differ in characters that are replaced. -/
def similarFiles : Files where
  here := []
  root := .folder [
    ("a.yaml", .file (some
      "- case:\n    id: A\n    desc: is [x/y] there\n    steps:\n      - click: b\n")),
    ("b.yaml", .file (some
      "- case:\n    id: A-1\n    desc: is [x?y] there\n    steps:\n      - click: b\n"))]

/-- Only the ids tell the names apart. -/
theorem TestSet.nodup_names_of_loadAll_similar :
    ∃ testsets, loadAll similarFiles .standard ["."] = .ok testsets ∧
      (testsets.flatMap TestSet.cases).map Case.name =
        ["A[is [x_y] there]", "A-1[is [x_y] there]"] ∧
      ((testsets.flatMap TestSet.cases).map Case.name).Nodup := by
  have hload : ((loadAll similarFiles .standard ["."]).map fun testsets =>
      (testsets.flatMap TestSet.cases).map Case.name) =
        .ok ["A[is [x_y] there]", "A-1[is [x_y] there]"] := by decide +kernel
  obtain ⟨testsets, hload, hnames⟩ := map_eq_ok.mp hload
  exact ⟨testsets, hload, hnames, (nodup_names_of_loadAll hload).1⟩

end Casebook
