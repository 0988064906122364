import Casebook.Proofs.Run.Verdict
import Casebook.Run.Runner
import Mathlib.Data.List.Basic

/-!
# What a report holds

Whatever fails in a run, its report has one result for each case, in the order in which the cases
were run, and its sums add up. Main statement: a run of testsets gives the results of their cases
one after another, each under the id of its case and the module of its testset, the cases behind
others are run from what those left, and the run passes if every case is verified and all of its
verify actions pass.

A case is run in the context and with the executors that it finds; `LooksAt seen` says that what the
recorder holds makes no difference, so what a case leaves to those behind it is its store.
-/

namespace Casebook

open Casebook.Computation

namespace Case

open Running

/-! ## The case of a result -/

/-- The id and the module that a running case is reported under. -/
def label (s : CaseRun) : String × String :=
  (s.result.id, s.result.module)

/-- What leaves the result alone leaves the label alone. -/
theorem moves_label {α : Type} {m : Running α} (hm : Moves (Same standing) m) :
    Moves (Same label) m := by
  intro s
  have hresult : (exec m s).2.result = s.result := congrArg Prod.fst (hm s)
  show label (exec m s).2 = label s
  rw [label, label, hresult]

theorem moves_updateResult {f : CaseResult → CaseResult}
    (hf : ∀ r, (f r).id = r.id ∧ (f r).module = r.module) :
    Moves (Same label) (updateResult f) :=
  moves_modify fun s => Prod.ext (hf s.result).1 (hf s.result).2

theorem moves_enter (p : Phase) (name : String) : Moves (Same label) (enter p name) :=
  moves_bind (moves_updateResult fun _ => ⟨rfl, rfl⟩) fun _ => moves_label (moves_trace _ _)

theorem moves_bindGlobals (c : Case) : Moves (Same label) (bindGlobals c) := by
  refine moves_bind (moves_modify fun _ => rfl) fun _ => ?_
  split
  · exact moves_label (moves_trace _ _)
  · exact moves_pure _

theorem moves_runStep (step : Step) : Moves (Same label) (runStep step) := by
  refine moves_bind (fun _ => rfl) fun s => ?_
  split
  · exact moves_bind (moves_label (moves_trace _ _)) fun _ =>
      moves_updateResult fun _ => ⟨rfl, rfl⟩
  · refine moves_bind (moves_label (moves_evaluate _)) fun fields => ?_
    refine moves_bind (moves_label (moves_trace _ _)) fun _ => ?_
    refine moves_bind (moves_label (moves_execute _ _)) fun answer => ?_
    cases answer with
    | none => exact moves_pure _
    | some v =>
      exact moves_bind (moves_modify fun _ => rfl) fun _ => moves_updateResult fun _ => ⟨rfl, rfl⟩

theorem moves_runSteps (steps : List Step) : Moves (Same label) (runSteps steps) := by
  induction steps with
  | nil => exact moves_pure _
  | cons step rest ih => exact moves_bind (moves_runStep step) fun _ => ih

theorem moves_runFatalPhases (c : Case) : Moves (Same label) (runFatalPhases c) :=
  have hactions (actions : List Action) : Moves (Same label) (runActions actions) :=
    moves_label (moves_runActions actions)
  moves_bind (moves_enter _ _) fun _ => moves_bind (moves_bindGlobals c) fun _ =>
    moves_bind (hactions c.preCommand) fun _ => moves_bind (moves_enter _ _) fun _ =>
      moves_bind (moves_runSteps c.steps) fun _ => moves_bind (moves_enter _ _) fun _ =>
        hactions c.postCommand

theorem moves_runVerify (actions : List Action) : Moves (Same label) (runVerify actions) := by
  intro s
  obtain ⟨outcomes, s', hexec, hstanding, -⟩ := exists_exec_runVerify actions s
  rw [hexec]
  have hresult : s'.result = s.result := congrArg Prod.fst hstanding
  show label s' = label s
  rw [label, label, hresult]

theorem moves_runPhases (c : Case) : Moves (Same label) (runPhases c) := by
  refine moves_bind (show Moves (Same label) (runFatalPhases c).outcome from
    moves_runFatalPhases c) fun result => ?_
  cases result with
  | ok _ =>
    exact moves_bind (moves_enter _ _) fun _ => moves_bind (moves_runVerify c.verify) fun _ =>
      moves_updateResult fun _ => ⟨rfl, rfl⟩
  | error e =>
    exact moves_bind (fun _ => rfl) fun _ => moves_bind (moves_label (moves_trace _ _)) fun _ =>
      moves_updateResult fun _ => ⟨rfl, rfl⟩

/-- A result is that of its case, in the module that the case was run in. -/
theorem label_run (c : Case) (module : String) (b : Bench) :
    (c.run module b).1.id = c.id ∧ (c.run module b).1.module = module := by
  have hlabel : label (exec (runPhases c) (c.opened module b)).2 = (c.id, module) :=
    moves_runPhases c (c.opened module b)
  exact Prod.mk.inj hlabel

/-! ## Passing -/

/-- A case is verified, or an error stops it before that. -/
theorem completed_or_stopped (c : Case) (module : String) (b : Bench) :
    Completed c b (c.run module b).1 ∨ Stopped c module b (c.run module b).1 := by
  show Completed c b (exec (runPhases c) (c.opened module b)).2.result ∨
    Stopped c module b (exec (runPhases c) (c.opened module b)).2.result
  rcases h : exec (runFatalPhases c) (c.opened module b) with ⟨e | _, s⟩
  · exact .inr (stopped_of_exec_runFatalPhases_error h)
  · exact .inl (completed_of_exec_runFatalPhases_ok h)

/-- A case came to its end, and each of its verify actions passed. -/
structure Fulfilled (c : Case) (r : CaseResult) : Prop where
  phase : r.phase = .done
  outcomes : r.verifies.length = c.verify.length
  passed : ∀ o ∈ r.verifies, o.passed = true

/-- A case passes if it comes to its end and each of its verify actions passes. -/
theorem status_run_eq_passed_iff (c : Case) (module : String) (b : Bench) :
    (c.run module b).1.status = .passed ↔ Fulfilled c (c.run module b).1 := by
  rcases completed_or_stopped c module b with hcompleted | hstopped
  · have hlength := hcompleted.verifies.length_eq.symm
    rw [hcompleted.status]
    constructor
    · intro hpassed
      refine ⟨hcompleted.phase, hlength, ?_⟩
      by_cases hall : (c.run module b).1.verifies.all VerifyOutcome.passed = true
      · exact List.all_eq_true.mp hall
      · rw [if_neg hall] at hpassed
        cases hpassed
    · intro hfulfilled
      exact if_pos (List.all_eq_true.mpr hfulfilled.passed)
  · constructor
    · intro hpassed
      rw [hstopped.status] at hpassed
      cases hpassed
    · intro hfulfilled
      -- An error stops a case in a phase before the last.
      obtain ⟨e, -, hstops⟩ := hstopped.error
      rw [hfulfilled.phase] at hstops
      cases hstops

/-! ## What a case finds -/

/-- A running case but for what the recorder holds. -/
def seen (s : CaseRun) : CaseResult × Context × Executors :=
  (s.result, s.bench.context, s.bench.executors)

theorem seen_eq_iff {s s' : CaseRun} :
    seen s = seen s' ↔ s.result = s'.result ∧ s.bench.context = s'.bench.context ∧
      s.bench.executors = s'.bench.executors := by
  simp only [seen, Prod.mk.injEq]

theorem looksAt_trace (level : TraceLevel) (message : String) :
    LooksAt seen (trace level message) :=
  looksAt_modify fun _ _ h => h

theorem looksAt_updateResult (f : CaseResult → CaseResult) : LooksAt seen (updateResult f) := by
  refine looksAt_modify fun s s' h => ?_
  obtain ⟨hresult, hbench⟩ := seen_eq_iff.mp h
  exact seen_eq_iff.mpr ⟨congrArg f hresult, hbench⟩

theorem looksAt_updateStore (f : Store → Store) : LooksAt seen (updateStore f) := by
  refine looksAt_modify fun s s' h => ?_
  obtain ⟨hresult, hcontext, hexecutors⟩ := seen_eq_iff.mp h
  refine seen_eq_iff.mpr ⟨hresult, ?_, hexecutors⟩
  exact congrArg (fun context : Context => { context with store := f context.store }) hcontext

theorem looksAt_evaluate {α : Type} (f : Context → Except Error α × Context) :
    LooksAt seen (evaluate f) := by
  intro s s' h
  obtain ⟨hresult, hcontext, hexecutors⟩ := seen_eq_iff.mp h
  have hf : f s.bench.context = f s'.bench.context := congrArg f hcontext
  constructor
  · show (f s.bench.context).1 = (f s'.bench.context).1
    rw [hf]
  · exact seen_eq_iff.mpr ⟨hresult, congrArg Prod.snd hf, hexecutors⟩

theorem looksAt_execute (kind : StepKind) (fields : Value) :
    LooksAt seen (execute kind fields) := by
  intro s s' h
  obtain ⟨hresult, hcontext, hexecutors⟩ := seen_eq_iff.mp h
  cases hfind : s.bench.executors.find? kind with
  | none =>
    have hfind' : s'.bench.executors.find? kind = none := hexecutors ▸ hfind
    rw [exec_execute_of_none fields hfind, exec_execute_of_none fields hfind']
    exact ⟨rfl, h⟩
  | some r =>
    have hfind' : s'.bench.executors.find? kind = some r := hexecutors ▸ hfind
    rw [exec_execute_of_some fields hfind, exec_execute_of_some fields hfind', hcontext]
    exact ⟨rfl, seen_eq_iff.mpr ⟨hresult, hcontext, congrArg (·.countCall kind) hexecutors⟩⟩

theorem looksAt_outcome {α : Type} {m : Running α} (hm : LooksAt seen m) :
    LooksAt seen m.outcome := by
  intro s s' h
  obtain ⟨hresult, hseen⟩ := hm s s' h
  exact ⟨congrArg Except.ok hresult, hseen⟩

theorem looksAt_enter (p : Phase) (name : String) : LooksAt seen (enter p name) :=
  (looksAt_updateResult _).bind fun _ => looksAt_trace _ _

theorem looksAt_bindGlobals (c : Case) : LooksAt seen (bindGlobals c) := by
  refine (looksAt_updateStore _).bind fun _ => ?_
  split
  · exact looksAt_trace _ _
  · exact looksAt_pure _

theorem looksAt_runActions (actions : List Action) : LooksAt seen (runActions actions) := by
  induction actions with
  | nil => exact looksAt_pure _
  | cons a rest ih =>
    exact (looksAt_evaluate _).bind fun _ => (looksAt_trace _ _).bind fun _ => ih

theorem looksAt_runStep (step : Step) : LooksAt seen (runStep step) := by
  unfold runStep
  refine looksAt_get_bind (fun t : CaseResult × Context × Executors =>
    if !t.2.2.contains step.kind then _ else _) (fun _ => rfl) fun t => ?_
  split
  · exact (looksAt_trace _ _).bind fun _ => looksAt_updateResult _
  · refine (looksAt_evaluate _).bind fun fields => (looksAt_trace _ _).bind fun _ =>
      (looksAt_execute _ _).bind fun answer => ?_
    cases answer with
    | none => exact looksAt_pure _
    | some v => exact (looksAt_updateStore _).bind fun _ => looksAt_updateResult _

theorem looksAt_runSteps (steps : List Step) : LooksAt seen (runSteps steps) := by
  induction steps with
  | nil => exact looksAt_pure _
  | cons step rest ih => exact (looksAt_runStep step).bind fun _ => ih

theorem looksAt_runFatalPhases (c : Case) : LooksAt seen (runFatalPhases c) :=
  (looksAt_enter _ _).bind fun _ => (looksAt_bindGlobals c).bind fun _ =>
    (looksAt_runActions c.preCommand).bind fun _ => (looksAt_enter _ _).bind fun _ =>
      (looksAt_runSteps c.steps).bind fun _ => (looksAt_enter _ _).bind fun _ =>
        looksAt_runActions c.postCommand

theorem looksAt_runVerify (actions : List Action) : LooksAt seen (runVerify actions) := by
  induction actions with
  | nil => exact looksAt_pure _
  | cons a rest ih =>
    have hmore (o : VerifyOutcome) : LooksAt seen (runVerify rest >>= fun os => pure (o :: os)) :=
      ih.bind fun _ => looksAt_pure _
    refine (looksAt_outcome (looksAt_evaluate _)).bind fun answer => ?_
    dsimp only
    split
    · exact (looksAt_trace _ _).bind fun _ => hmore _
    · exact (looksAt_trace _ _).bind fun _ => hmore _

theorem looksAt_runPhases (c : Case) : LooksAt seen (runPhases c) := by
  refine (looksAt_outcome (looksAt_runFatalPhases c)).bind fun result => ?_
  cases result with
  | ok _ =>
    exact (looksAt_enter _ _).bind fun _ => (looksAt_runVerify c.verify).bind fun _ =>
      looksAt_updateResult _
  | error e =>
    refine looksAt_get_bind (fun t : CaseResult × Context × Executors => do
      trace .error s!"{t.1.phase.name} failed: {e.message}"
      updateResult fun r => r.fail e) (fun _ => rfl) fun t => ?_
    exact (looksAt_trace _ _).bind fun _ => looksAt_updateResult _

/-- What the recorder holds makes no difference to a case, nor to what the case leaves. -/
theorem run_congr {b b' : Bench} (hcontext : b.context = b'.context)
    (hexecutors : b.executors = b'.executors) (c : Case) (module : String) :
    (c.run module b).1 = (c.run module b').1 ∧
      (c.run module b).2.context = (c.run module b').2.context ∧
      (c.run module b).2.executors = (c.run module b').2.executors := by
  have hopened : seen (c.opened module b) = seen (c.opened module b') :=
    seen_eq_iff.mpr ⟨rfl, hcontext, hexecutors⟩
  exact seen_eq_iff.mp (looksAt_runPhases c _ _ hopened).2

end Case

namespace Runner

/-! ## Runs of cases -/

/-- A runner that runs cases as they are run if nothing else is said. -/
def ofBench (b : Bench) : Runner :=
  ⟨b, Case.run⟩

/-- A runner with what another one left, but for the recorder. -/
def withRecorder (r : Runner) (recorder : Recorder) : Runner :=
  { r with bench := { r.bench with recorder } }

/-- A runner once a case was run. -/
def after (r : Runner) (module : String) (c : Case) : Runner :=
  { r with bench := (r.strategy c module r.bench).2 }

theorem runCases_cons (r : Runner) (module : String) (c : Case) (rest : List Case) :
    r.runCases module (c :: rest) =
      ((r.strategy c module r.bench).1 :: ((r.after module c).runCases module rest).1,
        ((r.after module c).runCases module rest).2) := rfl

/-- Cases behind others are run from what those leave. -/
theorem runCases_append (r : Runner) (module : String) (xs ys : List Case) :
    r.runCases module (xs ++ ys) =
      ((r.runCases module xs).1 ++ ((r.runCases module xs).2.runCases module ys).1,
        ((r.runCases module xs).2.runCases module ys).2) := by
  induction xs generalizing r with
  | nil => rfl
  | cons c rest ih =>
    rw [List.cons_append, runCases_cons, runCases_cons, ih]
    rfl

/-- What the recorder holds makes no difference to cases, nor to what they leave. -/
theorem runCases_congr {b b' : Bench} (hcontext : b.context = b'.context)
    (hexecutors : b.executors = b'.executors) (module : String) (cases : List Case) :
    ((ofBench b).runCases module cases).1 = ((ofBench b').runCases module cases).1 ∧
      ((ofBench b).runCases module cases).2.bench.context =
        ((ofBench b').runCases module cases).2.bench.context := by
  induction cases generalizing b b' with
  | nil => exact ⟨rfl, hcontext⟩
  | cons c rest ih =>
    obtain ⟨hresult, hcontext', hexecutors'⟩ := Case.run_congr hcontext hexecutors c module
    obtain ⟨hrest, hleft⟩ := ih hcontext' hexecutors'
    rw [runCases_cons, runCases_cons]
    exact ⟨congrArg₂ List.cons hresult hrest, hleft⟩

/-- Cases do not change how cases are run. -/
theorem runCases_snd (b : Bench) (module : String) (cases : List Case) :
    ((ofBench b).runCases module cases).2 =
      ofBench ((ofBench b).runCases module cases).2.bench := by
  induction cases generalizing b with
  | nil => rfl
  | cons c rest ih => exact ih (c.run module b).2

/-! ## Results -/

/-- A result comes from running a case in a module. -/
def IsResultOf (p : Case × String) (x : CaseResult) : Prop :=
  ∃ b, x = (p.1.run p.2 b).1

/-- The cases of testsets in order, each with the module of its testset. -/
def casesOf (testsets : List TestSet) : List (Case × String) :=
  testsets.flatMap fun t => t.cases.map fun c => (c, t.project.module)

theorem isResultOf_runCases (b : Bench) (module : String) (cases : List Case) :
    List.Forall₂ IsResultOf (cases.map fun c => (c, module))
      ((ofBench b).runCases module cases).1 := by
  induction cases generalizing b with
  | nil => exact .nil
  | cons c rest ih => exact .cons ⟨b, rfl⟩ (ih (c.run module b).2)

theorem isResultOf_testsetResults (b : Bench) (testsets : List TestSet) :
    List.Forall₂ IsResultOf (casesOf testsets) ((ofBench b).testsetResults testsets).1 := by
  induction testsets generalizing b with
  | nil => exact .nil
  | cons t rest ih =>
    have hfirst := isResultOf_runCases b t.project.module t.cases
    have hmore := ih ((ofBench b).runCases t.project.module t.cases).2.bench
    rw [← runCases_snd] at hmore
    exact List.rel_append hfirst hmore

/-- Results carry the ids of their cases and the modules that these were run in. -/
theorem map_label_eq {cases : List (Case × String)} {results : List CaseResult}
    (h : List.Forall₂ IsResultOf cases results) :
    (results.map fun x => (x.id, x.module)) = cases.map fun p => (p.1.id, p.2) := by
  induction h with
  | nil => rfl
  | @cons p x _ _ hx _ ih =>
    obtain ⟨b, rfl⟩ := hx
    obtain ⟨hid, hmodule⟩ := Case.label_run p.1 p.2 b
    rw [List.map_cons, List.map_cons, ih, hid, hmodule]

/-- All results are passes exactly if each case is fulfilled. -/
theorem all_passed_iff {cases : List (Case × String)} {results : List CaseResult}
    (h : List.Forall₂ IsResultOf cases results) :
    (∀ x ∈ results, x.status = .passed) ↔
      List.Forall₂ (fun p x => Case.Fulfilled p.1 x) cases results := by
  induction h with
  | nil => simp
  | @cons p x _ _ hx _ ih =>
    obtain ⟨b, rfl⟩ := hx
    rw [List.forall_mem_cons, List.forall₂_cons, ih, Case.status_run_eq_passed_iff]

end Runner

namespace Summary

/-- Every result has one of the three verdicts. -/
theorem total_eq (results : List CaseResult) :
    (ofResults results).total =
      (ofResults results).passed + (ofResults results).failed + (ofResults results).errors := by
  induction results with
  | nil => rfl
  | cons x rest ih =>
    simp only [ofResults, List.length_cons, List.countP_cons] at ih ⊢
    cases hstatus : x.status <;> simp only [decide_true, reduceCtorEq, decide_false, if_true,
      Bool.false_eq_true, if_false] <;> omega

/-- No case failed or was stopped by an error exactly if all passed. -/
theorem passed_iff (results : List CaseResult) (context : Dict Value) :
    (Report.ofResults results context).passed = true ↔ ∀ x ∈ results, x.status = .passed := by
  simp only [Report.passed, Report.ofResults, ofResults, Bool.and_eq_true, decide_eq_true_eq,
    List.countP_eq_zero]
  constructor
  · intro hnone x hx
    have hfailed := hnone.1 x hx
    have herror := hnone.2 x hx
    cases hstatus : x.status with
    | passed => rfl
    | failed => exact absurd hstatus hfailed
    | error => exact absurd hstatus herror
  · intro hall
    exact ⟨fun x hx => by rw [hall x hx]; decide, fun x hx => by rw [hall x hx]; decide⟩

end Summary

/-! ## Reports -/

/-- A report tells of some cases, each with the module that it was run in. -/
structure Report.Accounts (report : Report) (cases : List (Case × String)) : Prop where
  /-- There is one result for each case, in order, under its id and in its module. -/
  results : (report.cases.map fun x => (x.id, x.module)) = cases.map fun p => (p.1.id, p.2)
  total : report.summary.total = cases.length
  parts : report.summary.total =
    report.summary.passed + report.summary.failed + report.summary.errors
  passed : report.summary.passed = (report.cases.map CaseResult.status).count .passed
  failed : report.summary.failed = (report.cases.map CaseResult.status).count .failed
  errors : report.summary.errors = (report.cases.map CaseResult.status).count .error
  verdict : report.passed = true ↔
    List.Forall₂ (fun p x => Case.Fulfilled p.1 x) cases report.cases

namespace Runner

theorem accounts_ofResults {cases : List (Case × String)} {results : List CaseResult}
    (h : List.Forall₂ IsResultOf cases results) (context : Dict Value) :
    (Report.ofResults results context).Accounts cases := by
  have hcount (status : CaseStatus) : results.countP (fun x => x.status = status) =
      (results.map CaseResult.status).count status := by
    rw [List.count_eq_countP, List.countP_map]
    rfl
  constructor
  case results => exact map_label_eq h
  case total => exact h.length_eq.symm
  case parts => exact Summary.total_eq results
  case passed => exact hcount .passed
  case failed => exact hcount .failed
  case errors => exact hcount .error
  case verdict => exact (Summary.passed_iff results context).trans (all_passed_iff h)

end Runner

end Casebook
