import Casebook.Proofs.Composition.Index
import Casebook.Proofs.Composition.Names

/-!
# Valid runs

The cases of a run are valid exactly if all ids are well formed, every case has steps and no two
cases have the same id. Otherwise the error is the offence of the first case that has one: what comes
before that case is a valid run of its own, and of what is wrong with the case itself the id comes
first, then the steps, then whether the id is used already.

Each testset is checked when it is composed, and all cases of a run are checked once more together.
What the second check finds is only what the first cannot see: that testsets share an id.
-/

namespace Casebook

open Computation

namespace Case

/-- An id has characters, and each is alphanumeric, an underscore or a hyphen. -/
def WellFormedId (id : String) : Prop :=
  id ≠ "" ∧ ∀ c ∈ id.toList, Text.isAlphanumeric c = true ∨ c = '_' ∨ c = '-'

/-- A run of cases is well formed. -/
structure WellFormedRun (cases : List Case) : Prop where
  ids : ∀ c ∈ cases, WellFormedId c.id
  steps : ∀ c ∈ cases, c.steps ≠ []
  distinct : (cases.map Case.id).Nodup

/-- The offence of a case behind others, as the error that tells of it. Of several offences the first
counts. -/
inductive Offence (before : List Case) (c : Case) : Error → Prop where
  | malformedId (hid : ¬WellFormedId c.id) :
      Offence before c
        (.malformed s!"case '{c.id}'" "case ids may only contain letters, digits, '_' and '-'")
  | noSteps (hid : WellFormedId c.id) (hsteps : c.steps = []) :
      Offence before c (.missingField "steps" s!"case '{c.id}'")
  | usedId (hid : WellFormedId c.id) (hsteps : c.steps ≠ []) (hused : ∃ d ∈ before, d.id = c.id) :
      Offence before c (.duplicateCaseId c.id)

theorem isValidId_iff {id : String} : isValidId id = true ↔ WellFormedId id := by
  have hchar (c : Char) : isIdChar c = true ↔ Text.isAlphanumeric c = true ∨ c = '_' ∨ c = '-' := by
    simp [isIdChar, or_assoc]
  simp only [isValidId, WellFormedId, Bool.and_eq_true, decide_eq_true_eq, List.all_eq_true, hchar]

theorem wellFormedRun_iff {cases : List Case} :
    WellFormedRun cases ↔ validate cases = .ok () := by
  rw [validate_eq_ok_iff]
  simp only [isValidId_iff]
  exact ⟨fun h => ⟨fun c hc => ⟨h.ids c hc, h.steps c hc⟩, h.distinct⟩,
    fun h => ⟨fun c hc => (h.1 c hc).1, fun c hc => (h.1 c hc).2, h.2⟩⟩

theorem fault?_of_offence {seen : List String} {before : List Case}
    (hseen : ∀ d ∈ before, d.id ∈ seen) {c : Case} {e : Error} (h : Offence before c e) :
    fault? seen c = some e := by
  unfold fault?
  cases h with
  | malformedId hid => rw [Bool.eq_false_iff.mpr (mt isValidId_iff.mp hid), Bool.not_false, if_pos rfl]
  | noSteps hid hsteps =>
    rw [isValidId_iff.mpr hid, hsteps]
    rfl
  | usedId hid hsteps hused =>
    obtain ⟨d, hd, hdid⟩ := hused
    rw [isValidId_iff.mpr hid, Bool.not_true, if_neg Bool.false_ne_true,
      if_neg (mt List.isEmpty_iff.mp hsteps), if_pos (hdid ▸ hseen d hd)]

/-- Behind a well-formed run either a case has an offence or the run goes on with it. -/
theorem exists_offence_or_wellFormedRun {front : List Case} (hfront : WellFormedRun front) (c : Case) :
    (∃ e, Offence front c e) ∨ WellFormedRun (front ++ [c]) := by
  by_cases hid : WellFormedId c.id
  swap
  · exact .inl ⟨_, .malformedId hid⟩
  by_cases hsteps : c.steps = []
  · exact .inl ⟨_, .noSteps hid hsteps⟩
  by_cases hused : ∃ d ∈ front, d.id = c.id
  · exact .inl ⟨_, .usedId hid hsteps hused⟩
  refine .inr ⟨?_, ?_, ?_⟩
  · exact List.forall_mem_append.mpr ⟨hfront.ids, List.forall_mem_singleton.mpr hid⟩
  · exact List.forall_mem_append.mpr ⟨hfront.steps, List.forall_mem_singleton.mpr hsteps⟩
  · rw [List.map_append]
    refine hfront.distinct.append (List.nodup_singleton _) (List.disjoint_singleton.mpr ?_)
    rwa [List.mem_map]

/-- Cases that are no well-formed run have a first offence. -/
theorem exists_first_offence {cases : List Case} (h : ¬WellFormedRun cases) :
    ∃ before c after e, cases = before ++ c :: after ∧ WellFormedRun before ∧ Offence before c e := by
  obtain ⟨before, c, after, heq, hbefore, hc⟩ :=
    exists_first_failure (P := WellFormedRun) ⟨nofun, nofun, List.nodup_nil⟩ h
  obtain ⟨e, he⟩ := (exists_offence_or_wellFormedRun hbefore c).resolve_right hc
  exact ⟨before, c, after, e, heq, hbefore, he⟩

/-- Checking goes on behind valid cases with their ids. -/
theorem validateFrom_append {seen : List String} {front : List Case}
    (h : validateFrom seen front = .ok ()) (rest : List Case) :
    validateFrom seen (front ++ rest) = validateFrom ((front.map Case.id).reverse ++ seen) rest := by
  induction front generalizing seen with
  | nil => rfl
  | cons c front ih =>
    rw [validateFrom] at h
    rw [List.cons_append, validateFrom, List.map_cons, List.reverse_cons, List.append_assoc]
    cases hfault : fault? seen c with
    | some e =>
      rw [hfault] at h
      cases h
    | none =>
      rw [hfault] at h
      exact ih h

/-- The first offence is what is reported. -/
theorem validate_of_offence {before : List Case} (hbefore : WellFormedRun before) {c : Case}
    {e : Error} (he : Offence before c e) (after : List Case) :
    validate (before ++ c :: after) = .error e := by
  have hseen : ∀ d ∈ before, d.id ∈ (before.map Case.id).reverse ++ [] := by
    intro d hd
    rw [List.append_nil, List.mem_reverse]
    exact List.mem_map_of_mem hd
  rw [validate, validateFrom_append (wellFormedRun_iff.mp hbefore), validateFrom,
    fault?_of_offence hseen he]

theorem validate_eq_error_iff {cases : List Case} {e : Error} :
    validate cases = .error e ↔
      ∃ before c after, cases = before ++ c :: after ∧ WellFormedRun before ∧ Offence before c e := by
  constructor
  · intro h
    have hcases : ¬WellFormedRun cases := fun hrun => by
      rw [wellFormedRun_iff.mp hrun] at h
      cases h
    obtain ⟨before, c, after, e', rfl, hbefore, he'⟩ := exists_first_offence hcases
    rw [validate_of_offence hbefore he'] at h
    cases h
    exact ⟨before, c, after, rfl, hbefore, he'⟩
  · rintro ⟨before, c, after, rfl, hbefore, he⟩
    exact validate_of_offence hbefore he after

end Case

/-! ## Testsets of a run -/

/-- What a document is composed into is a well-formed run. -/
theorem Composer.wellFormedRun_of_compose {c : Composer} {files : Files} {d : Document} {t : TestSet}
    (h : (c.compose files d).1 = .ok t) : Case.WellFormedRun t.cases := by
  have hexec : exec (composing files d) ⟨c, []⟩ = (.ok t, (exec (composing files d) ⟨c, []⟩).2) :=
    Prod.ext h rfl
  obtain ⟨cases, s, -, hrest⟩ := exec_bind_eq_ok.mp hexec
  obtain ⟨_, s', hvalid, hpure⟩ := exec_bind_eq_ok.mp hrest
  cases hpure
  exact Case.wellFormedRun_iff.mpr (Prod.ext_iff.mp hvalid).1

namespace TestSet

section

variable {files : Files} {layout : Layout} {l l' : Loading}

/-- Each testset is a well-formed run. -/
def Loading.Checked (l : Loading) : Prop :=
  ∀ t ∈ l.testsets, Case.WellFormedRun t.cases

theorem Loading.Checked.add {path : String} (hl : l.Checked) (h : l.add files layout path = .ok l') :
    l'.Checked := by
  obtain ⟨d, -, h⟩ := bind_eq_ok.mp h
  obtain ⟨t, hcompose, h⟩ := bind_eq_ok.mp h
  cases h
  exact List.forall_mem_append.mpr
    ⟨hl, List.forall_mem_singleton.mpr (Composer.wellFormedRun_of_compose hcompose)⟩

theorem Loading.Checked.addAll {path : String} (hl : l.Checked)
    (h : l.addAll files layout path = .ok l') : l'.Checked := by
  obtain ⟨found, -, h⟩ := bind_eq_ok.mp h
  exact foldlM_keeps (fun _ _ _ hl => hl.add) hl h

/-- A case among those of some testsets is one of them, behind others of the same and behind those
of the testsets before it. -/
theorem exists_testset_of_flatMap {testsets : List TestSet} {front : List Case} {c : Case}
    {back : List Case} (h : testsets.flatMap TestSet.cases = front ++ c :: back) :
    ∃ before t after own rest, testsets = before ++ t :: after ∧ t.cases = own ++ c :: rest ∧
      front = before.flatMap TestSet.cases ++ own := by
  induction testsets generalizing front with
  | nil => exact absurd h (by simp)
  | cons t testsets ih =>
    rw [List.flatMap_cons] at h
    rcases List.append_eq_append_iff.mp h with ⟨own, rfl, hrest⟩ | ⟨rest, hcases, hrest⟩
    · obtain ⟨before, t', after, own', rest, rfl, hown, rfl⟩ := ih hrest
      exact ⟨t :: before, t', after, own', rest, rfl, hown, by simp⟩
    · cases rest with
      | nil =>
        have hfirst : testsets.flatMap TestSet.cases = [] ++ c :: back := hrest.symm
        obtain ⟨before, t', after, own, rest, rfl, hown, hfront⟩ := ih hfirst
        refine ⟨t :: before, t', after, own, rest, rfl, hown, ?_⟩
        rw [List.flatMap_cons, List.append_assoc, ← hfront, hcases, List.append_nil, List.append_nil]
      | cons d rest =>
        obtain ⟨rfl, -⟩ := List.cons.inj hrest
        exact ⟨[], t, testsets, front, rest, rfl, hcases, rfl⟩

end

/-- The testsets that paths name, in order, each composed and checked for itself. -/
def composeAll (files : Files) (layout : Layout) (paths : List String) :
    Except Error (List TestSet) :=
  (paths.foldlM (Loading.addAll files layout) ⟨[], []⟩).map Loading.testsets

section

variable {files : Files} {layout : Layout} {paths : List String} {testsets : List TestSet}

theorem wellFormedRun_of_composeAll (h : composeAll files layout paths = .ok testsets) :
    ∀ t ∈ testsets, Case.WellFormedRun t.cases := by
  obtain ⟨l, hl, rfl⟩ := map_eq_ok.mp h
  have hnone : Loading.Checked ⟨[], []⟩ := nofun
  exact foldlM_keeps (fun _ _ _ hl => hl.addAll) hnone hl

/-- A run is loaded once its testsets are composed and their cases together are valid. -/
theorem loadAll_of_composeAll (h : composeAll files layout paths = .ok testsets) :
    loadAll files layout paths =
      (Case.validate (testsets.flatMap TestSet.cases)).map fun _ => testsets := by
  obtain ⟨l, hl, rfl⟩ := map_eq_ok.mp h
  rw [loadAll, hl, ok_bind]
  cases Case.validate (l.testsets.flatMap TestSet.cases) <;> rfl

theorem loadAll_eq_ok_iff :
    loadAll files layout paths = .ok testsets ↔
      composeAll files layout paths = .ok testsets ∧
        Case.WellFormedRun (testsets.flatMap TestSet.cases) := by
  constructor
  · intro h
    obtain ⟨l, hl, hrest⟩ := bind_eq_ok.mp h
    obtain ⟨_, hvalid, hpure⟩ := bind_eq_ok.mp hrest
    cases hpure
    exact ⟨map_eq_ok.mpr ⟨l, hl, rfl⟩, Case.wellFormedRun_iff.mpr hvalid⟩
  · rintro ⟨hcomposed, hrun⟩
    rw [loadAll_of_composeAll hcomposed, Case.wellFormedRun_iff.mp hrun]
    rfl

/-- Testsets that are well-formed runs make one together unless they share an id, and the offence is
at the first id that an earlier testset has. -/
theorem exists_shared_id (hruns : ∀ t ∈ testsets, Case.WellFormedRun t.cases)
    (h : ¬Case.WellFormedRun (testsets.flatMap TestSet.cases)) :
    ∃ before t after c, testsets = before ++ t :: after ∧ c ∈ t.cases ∧
      (∃ d ∈ before.flatMap TestSet.cases, d.id = c.id) ∧
      Case.validate (testsets.flatMap TestSet.cases) = .error (.duplicateCaseId c.id) := by
  obtain ⟨front, c, back, e, hsplit, hfront, he⟩ := Case.exists_first_offence h
  obtain ⟨before, t, after, own, rest, rfl, hcases, rfl⟩ := exists_testset_of_flatMap hsplit
  have ht := hruns t (List.mem_append_right _ List.mem_cons_self)
  have hc : c ∈ t.cases := hcases ▸ List.mem_append_right _ List.mem_cons_self
  have hreported := hsplit ▸ Case.validate_of_offence hfront he back
  -- Its testset was checked, so nothing but its id can be wrong with the case.
  cases he with
  | malformedId hid => exact absurd (ht.ids c hc) hid
  | noSteps _ hsteps => exact absurd hsteps (ht.steps c hc)
  | usedId _ _ hused =>
    refine ⟨before, t, after, c, rfl, hc, ?_, hreported⟩
    obtain ⟨d, hd, hid⟩ := hused
    rcases List.mem_append.mp hd with hd | hd
    · exact ⟨d, hd, hid⟩
    · have hdistinct := ht.distinct
      rw [hcases, List.map_append, List.map_cons] at hdistinct
      have hnot := (List.nodup_middle.mp hdistinct).notMem
      exact absurd (List.mem_append_left _ (hid ▸ List.mem_map_of_mem hd)) hnot

end

end TestSet

/-- Checking accepts exactly well-formed runs, and reports the first offence: the error is that of the
case whose predecessors are a well-formed run but which itself has a malformed id, no steps or the id
of a predecessor, whichever of these applies first. So a run of testsets is loaded exactly if each
testset can be composed and the cases of all, with those of the suites, are a well-formed run.
Otherwise, as each testset was checked for itself, the error is that a case has an id that a case of
an earlier testset has. -/
theorem Case.validate_reports_first_offence (cases : List Case) :
    (validate cases = .ok () ↔ WellFormedRun cases) ∧
    (∀ e, validate cases = .error e ↔
      ∃ before c after, cases = before ++ c :: after ∧ WellFormedRun before ∧ Offence before c e) ∧
    ∀ files layout paths testsets,
      (TestSet.loadAll files layout paths = .ok testsets ↔
        TestSet.composeAll files layout paths = .ok testsets ∧
          WellFormedRun (testsets.flatMap TestSet.cases)) ∧
      (TestSet.composeAll files layout paths = .ok testsets →
        ¬WellFormedRun (testsets.flatMap TestSet.cases) →
          ∃ before t after c, testsets = before ++ t :: after ∧ c ∈ t.cases ∧
            (∃ d ∈ before.flatMap TestSet.cases, d.id = c.id) ∧
            TestSet.loadAll files layout paths = .error (.duplicateCaseId c.id)) := by
  refine ⟨wellFormedRun_iff.symm, fun e => validate_eq_error_iff, fun files layout paths testsets =>
    ⟨TestSet.loadAll_eq_ok_iff, fun hcomposed hrun => ?_⟩⟩
  obtain ⟨before, t, after, c, hsplit, hc, hd, herror⟩ :=
    TestSet.exists_shared_id (TestSet.wellFormedRun_of_composeAll hcomposed) hrun
  refine ⟨before, t, after, c, hsplit, hc, hd, ?_⟩
  rw [TestSet.loadAll_of_composeAll hcomposed, herror]
  rfl

/-- A testset whose case comes from a suite, with an id that a case of another testset has. -/
def sharedFiles : Files where
  here := []
  root := .folder [
    ("a.yaml", .file (some "- case:
    suite: s(1)
")),
    ("b.yaml", .file (some "- case:
    id: S1
    desc: d
    steps:
      - click: b
")),
    ("dependencies", .folder [("suite", .folder [("s.yaml", .file (some
      ("- project:
    def: s($n)
"
        ++ "- case:
    id: S$n
    desc: d
    steps:
      - click: b
")))])])]

/-- Each of the two testsets can be composed, but they share an id. -/
theorem Case.validate_reports_first_offence_shared :
    ∃ testsets, TestSet.composeAll sharedFiles .standard ["."] = .ok testsets ∧
      testsets.map (fun t => t.cases.map Case.id) = [["S1"], ["S1"]] ∧
      ¬WellFormedRun (testsets.flatMap TestSet.cases) ∧
      TestSet.loadAll sharedFiles .standard ["."] = .error (.duplicateCaseId "S1") := by
  have hload : (TestSet.composeAll sharedFiles .standard ["."]).map
      (List.map fun t => t.cases.map Case.id) = .ok [["S1"], ["S1"]] := by decide +kernel
  obtain ⟨testsets, hcomposed, hids⟩ := map_eq_ok.mp hload
  have hall : (testsets.flatMap TestSet.cases).map Case.id = ["S1", "S1"] := by
    rw [List.map_flatMap, List.flatMap_def, hids]
    rfl
  have hrun : ¬WellFormedRun (testsets.flatMap TestSet.cases) := by
    intro h
    have hdistinct := h.distinct
    rw [hall] at hdistinct
    exact absurd hdistinct (by decide)
  obtain ⟨-, -, hloading⟩ := validate_reports_first_offence []
  obtain ⟨before, t, after, c, hsplit, hc, -, herror⟩ :=
    (hloading sharedFiles .standard ["."] testsets).2 hcomposed hrun
  have hmem : c.id ∈ (testsets.flatMap TestSet.cases).map Case.id := by
    refine List.mem_map_of_mem (List.mem_flatMap.mpr ⟨t, ?_, hc⟩)
    exact hsplit ▸ List.mem_append_right _ List.mem_cons_self
  have hid : c.id = "S1" := by
    rw [hall] at hmem
    simpa using hmem
  exact ⟨testsets, hcomposed, hids, hrun, hid ▸ herror⟩

end Casebook
