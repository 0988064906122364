import Casebook.Proofs.Computation
import Casebook.Run.Pipeline
import Mathlib.Data.List.Forall2
import Mathlib.Logic.Basic

/-!
# The verdict on a case

A case that is run ends in one of two ways. It is verified, and then passes if all of its verify
actions do; or an error stops it in a phase before that, and then nothing is verified. Main
statement: the result of every run has exactly one of these two forms, whatever the store, the
executors and the verbs answer.

The proof goes through the functions of the pipeline from the inside out. Each of them either leaves
the result of the case alone (`standing`), or counts the steps it got through (`tally`); the first
step that gives an error is the one that is not counted.
-/

namespace Casebook

open Casebook.Computation Running

namespace CaseResult

/-- How many steps a case got through, be it that they were carried out or skipped. -/
def processed (r : CaseResult) : ℕ :=
  r.stepsRun + r.stepsSkipped

/-- A result once a phase was entered. -/
def entered (r : CaseResult) (p : Phase) : CaseResult :=
  { r with phase := p }

/-- A result once some more steps were got through. -/
def tally (r : CaseResult) (es : StepKind → Bool) (steps : List Step) : CaseResult :=
  { r with
    stepsRun := r.stepsRun + steps.countP fun step => es step.kind
    stepsSkipped := r.stepsSkipped + steps.countP fun step => !es step.kind }

theorem processed_tally (r : CaseResult) (es : StepKind → Bool) (steps : List Step) :
    (r.tally es steps).processed = r.processed + steps.length := by
  have h := List.length_eq_countP_add_countP (fun step : Step => es step.kind) (l := steps)
  simp only [Bool.not_eq_true, Bool.decide_eq_false] at h
  simp only [processed, tally]
  omega

end CaseResult

namespace Case

/-! ## The two verdicts -/

/-- A case that is about to run in a module. -/
def opened (c : Case) (module : String) (b : Bench) : CaseRun :=
  ⟨{ b with recorder := b.recorder.start module c.name c.responsible c.tester },
    .ofCase c module⟩

/-- What a case does before its pre-commands. -/
def prepare (c : Case) : Running Unit := do
  enter .preCommand "pre_command"
  bindGlobals c

/-- What a case does in front of its steps, and some of its steps. -/
def upToStep (c : Case) (i : ℕ) : Running Unit := do
  prepare c
  runActions c.preCommand
  enter .steps "steps"
  runSteps (c.steps.take i)

/-- Where an error stops a case: the phase, the number of steps it got through, and the error. -/
inductive StopsAt (c : Case) (module : String) (b : Bench) : Phase → ℕ → Error → Prop where
  /-- A pre-command gives the error. -/
  | preCommand {s s' : CaseRun} {e : Error}
      (before : exec (prepare c) (c.opened module b) = (.ok (), s))
      (error : exec (runActions c.preCommand) s = (.error e, s')) :
      StopsAt c module b .preCommand 0 e
  /-- All steps before the one of an index are got through, and that one gives the error. -/
  | step {i : ℕ} {step : Step} {s s' : CaseRun} {e : Error} (get : c.steps[i]? = some step)
      (before : exec (upToStep c i) (c.opened module b) = (.ok (), s))
      (error : exec (runStep step) s = (.error e, s')) : StopsAt c module b .steps i e
  /-- All steps are got through, and a post-command gives the error. -/
  | postCommand {s s' : CaseRun} {e : Error}
      (before : exec (upToStep c c.steps.length) (c.opened module b) = (.ok (), s))
      (error : exec (do enter .postCommand "post_command"; runActions c.postCommand) s =
        (.error e, s')) :
      StopsAt c module b .postCommand c.steps.length e

/-- The result of a case that was verified. -/
structure Completed (c : Case) (b : Bench) (r : CaseResult) : Prop where
  phase : r.phase = .done
  error : r.error = none
  verifies : List.Forall₂ (fun a o => ∃ answer, o = outcomeOf a answer) c.verify r.verifies
  processed : r.processed = c.steps.length
  skipped : r.stepsSkipped = c.steps.countP fun step => !b.executors.contains step.kind
  status : r.status = if r.verifies.all VerifyOutcome.passed then .passed else .failed

/-- The result of a case that an error stopped. -/
structure Stopped (c : Case) (module : String) (b : Bench) (r : CaseResult) : Prop where
  status : r.status = .error
  verifies : r.verifies = []
  error : ∃ e, r.error = some ⟨r.phase, e.kind, e.category, e.message⟩ ∧
    c.StopsAt module b r.phase r.processed e
  skipped : r.stepsSkipped =
    (c.steps.take r.processed).countP fun step => !b.executors.contains step.kind

/-! ## What leaves the result alone -/

/-- The result of a running case and the kinds of steps that have executors. -/
def standing (s : CaseRun) : CaseResult × (StepKind → Bool) :=
  (s.result, s.bench.executors.contains)

theorem moves_trace (level : TraceLevel) (message : String) :
    Moves (Same standing) (trace level message) :=
  moves_modify fun _ => rfl

theorem moves_evaluate {α : Type} (f : Context → Except Error α × Context) :
    Moves (Same standing) (evaluate f) :=
  fun _ => rfl

theorem moves_runActions (actions : List Action) : Moves (Same standing) (runActions actions) := by
  induction actions with
  | nil => exact moves_pure _
  | cons a rest ih =>
    exact moves_bind (moves_evaluate _) fun _ => moves_bind (moves_trace _ _) fun _ => ih

theorem exec_execute_of_none {kind : StepKind} (fields : Value) {s : CaseRun}
    (h : s.bench.executors.find? kind = none) :
    exec (execute kind fields) s = (.ok none, s) := by
  have hnone : s.bench.executors.execute kind fields s.bench.context.store = none := by
    rw [Executors.execute, h]
    rfl
  unfold exec execute ExceptT.run ExceptT.mk StateT.run
  beta_reduce
  rw [hnone]

/-- The executor of a kind answers, and its call is counted. -/
theorem exec_execute_of_some {kind : StepKind} (fields : Value) {s : CaseRun} {r : Registered}
    (h : s.bench.executors.find? kind = some r) :
    exec (execute kind fields) s =
      ((r.executor.answer r.calls kind fields s.bench.context.store).map some,
        { s with bench := { s.bench with executors := s.bench.executors.countCall kind } }) := by
  have hsome : s.bench.executors.execute kind fields s.bench.context.store =
      some (r.executor.answer r.calls kind fields s.bench.context.store,
        s.bench.executors.countCall kind) := by
    rw [Executors.execute, h]
    rfl
  unfold exec execute ExceptT.run ExceptT.mk StateT.run
  beta_reduce
  rw [hsome]

theorem moves_execute (kind : StepKind) (fields : Value) :
    Moves (Same standing) (execute kind fields) := by
  intro s
  show standing (exec (execute kind fields) s).2 = standing s
  cases h : s.bench.executors.find? kind with
  | none => rw [exec_execute_of_none fields h]
  | some r =>
    rw [exec_execute_of_some fields h]
    simp [standing]

/-- A computation that leaves the result alone does so in each of its runs. -/
theorem standing_of_exec {α : Type} {m : Running α} (hm : Moves (Same standing) m)
    {s s' : CaseRun} {r : Except Error α} (h : exec m s = (r, s')) : standing s' = standing s :=
  hm.of_exec h

/-! ## Steps -/

/-- Record the result of a step that was done, and bind the variable that it names. -/
def recordResult (name : Option String) (v : Value) : Running Unit := do
  updateStore fun s =>
    (match name with
      | some name => s.set name v
      | none => s).setLastResult v
  updateResult fun r => { r with stepsRun := r.stepsRun + 1 }

/-- A step without an executor is skipped: it is noted and counted, whatever its fields are. -/
theorem exec_runStep_eq_of_not_contains {step : Step} {s : CaseRun}
    (hc : s.bench.executors.contains step.kind = false) :
    exec (runStep step) s = exec (do
      trace .normal s!"skipped '{step.kind.key}' step: no executor"
      updateResult fun r => { r with stepsSkipped := r.stepsSkipped + 1 }) s := by
  rw [runStep, exec_bind_of_ok (exec_get s), hc]
  rfl

/-- Any other step is carried out. -/
theorem exec_runStep_eq_of_contains {step : Step} {s : CaseRun}
    (hc : s.bench.executors.contains step.kind = true) :
    exec (runStep step) s = exec (do
      let fields ← evaluate fun context => context.resolveValue step.fields
      trace .step s!"{step.kind.key} {Json.compact fields}"
      match ← execute step.kind fields with
      | none => return
      | some v => recordResult step.result v) s := by
  rw [runStep, exec_bind_of_ok (exec_get s), hc]
  rfl

theorem exec_runStep_of_not_contains {step : Step} {s : CaseRun}
    (hc : s.bench.executors.contains step.kind = false) :
    ∃ s', exec (runStep step) s = (.ok (), s') ∧
      standing s' = ({ s.result with stepsSkipped := s.result.stepsSkipped + 1 },
        s.bench.executors.contains) := by
  rw [exec_runStep_eq_of_not_contains hc]
  exact ⟨_, rfl, rfl⟩

/-- A kind that has an executor gets an answer. -/
theorem exists_of_exec_execute_ok {kind : StepKind} {fields : Value} {answer : Option Value}
    {s s' : CaseRun} (hc : s.bench.executors.contains kind = true)
    (h : exec (execute kind fields) s = (.ok answer, s')) : ∃ v, answer = some v := by
  obtain ⟨r, hr⟩ := Option.isSome_iff_exists.mp hc
  rw [exec_execute_of_some fields hr, Prod.mk.injEq] at h
  cases ha : r.executor.answer r.calls kind fields s.bench.context.store with
  | error e => rw [ha] at h; cases h.1
  | ok v => rw [ha] at h; exact ⟨v, (Except.ok.inj h.1).symm⟩

/-- A step that is got through is counted once: as skipped if its kind has no executor. -/
theorem standing_of_exec_runStep_ok {step : Step} {s s' : CaseRun}
    (h : exec (runStep step) s = (.ok (), s')) :
    standing s' =
      (s.result.tally s.bench.executors.contains [step], s.bench.executors.contains) := by
  cases hc : s.bench.executors.contains step.kind with
  | false =>
    -- Such a step ends in one way only.
    obtain ⟨s₁, hs₁, hstanding⟩ := exec_runStep_of_not_contains hc
    rw [h, Prod.mk.injEq] at hs₁
    rw [hs₁.2, hstanding]
    simp [CaseResult.tally, hc]
  | true =>
    rw [exec_runStep_eq_of_contains hc] at h
    obtain ⟨fields, s₁, h₁, h⟩ := exec_bind_eq_ok.mp h
    obtain ⟨_, s₂, h₂, h⟩ := exec_bind_eq_ok.mp h
    obtain ⟨answer, s₃, h₃, h⟩ := exec_bind_eq_ok.mp h
    have hs₂ : standing s₂ = standing s :=
      (standing_of_exec (moves_trace _ _) h₂).trans (standing_of_exec (moves_evaluate _) h₁)
    have hs₃ : standing s₃ = standing s :=
      (standing_of_exec (moves_execute _ _) h₃).trans hs₂
    have hc₂ : s₂.bench.executors.contains step.kind = true := by
      have := congrFun (congrArg Prod.snd hs₂) step.kind
      exact this.trans hc
    -- An executor that is there gives a value, so the step is counted as run.
    obtain ⟨v, rfl⟩ := exists_of_exec_execute_ok hc₂ h₃
    cases h
    show ({ s₃.result with stepsRun := s₃.result.stepsRun + 1 }, s₃.bench.executors.contains) = _
    simp only [standing, Prod.mk.injEq] at hs₃
    rw [hs₃.1, hs₃.2]
    simp [CaseResult.tally, hc]

/-- A step that gives an error has an executor, and it is not counted. -/
theorem standing_of_exec_runStep_error {step : Step} {s s' : CaseRun} {e : Error}
    (h : exec (runStep step) s = (.error e, s')) : standing s' = standing s := by
  cases hc : s.bench.executors.contains step.kind with
  | false =>
    obtain ⟨s₁, hs₁, -⟩ := exec_runStep_of_not_contains hc
    rw [h] at hs₁
    cases hs₁
  | true =>
    rw [exec_runStep_eq_of_contains hc] at h
    -- The error is that of the fields or of the executor; neither has counted anything.
    rcases exec_bind_eq_error.mp h with h | ⟨fields, s₁, h₁, h⟩
    · exact standing_of_exec (moves_evaluate _) h
    have hs₁ := standing_of_exec (moves_evaluate _) h₁
    rcases exec_bind_eq_error.mp h with h | ⟨_, s₂, h₂, h⟩
    · exact (standing_of_exec (moves_trace _ _) h).trans hs₁
    have hs₂ := (standing_of_exec (moves_trace _ _) h₂).trans hs₁
    rcases exec_bind_eq_error.mp h with h | ⟨answer, s₃, -, h⟩
    · exact (standing_of_exec (moves_execute _ _) h).trans hs₂
    · cases answer <;> cases h

/-- Steps that are got through are counted one by one. -/
theorem standing_of_exec_runSteps_ok {steps : List Step} {s s' : CaseRun}
    (h : exec (runSteps steps) s = (.ok (), s')) :
    standing s' =
      (s.result.tally s.bench.executors.contains steps, s.bench.executors.contains) := by
  induction steps generalizing s with
  | nil => cases h; rfl
  | cons step rest ih =>
    obtain ⟨_, s₁, h₁, h⟩ := exec_bind_eq_ok.mp h
    have hs₁ := standing_of_exec_runStep_ok h₁
    simp only [standing, Prod.mk.injEq] at hs₁
    rw [ih h, hs₁.1, hs₁.2]
    simp only [CaseResult.tally, List.countP_cons, List.countP_nil, Prod.mk.injEq, and_true,
      CaseResult.mk.injEq, true_and]
    omega

/-- Steps that give an error are got through up to the one that gives it. -/
theorem exists_of_exec_runSteps_error {steps : List Step} {s s' : CaseRun} {e : Error}
    (h : exec (runSteps steps) s = (.error e, s')) :
    ∃ i step s₁, steps[i]? = some step ∧ exec (runSteps (steps.take i)) s = (.ok (), s₁) ∧
      exec (runStep step) s₁ = (.error e, s') := by
  induction steps generalizing s with
  | nil => cases h
  | cons step rest ih =>
    rcases exec_bind_eq_error.mp h with h | ⟨_, s₁, h₁, h⟩
    · exact ⟨0, step, s, rfl, rfl, h⟩
    · -- The step is got through, so the one that gives the error is one place later.
      obtain ⟨i, failing, s₂, hget, hbefore, herror⟩ := ih h
      refine ⟨i + 1, failing, s₂, hget, ?_, herror⟩
      exact exec_bind_eq_ok.mpr ⟨(), s₁, h₁, hbefore⟩

/-! ## Verification -/

/-- Every verify action has an outcome, whatever the others gave. -/
theorem exists_exec_runVerify (actions : List Action) (s : CaseRun) :
    ∃ outcomes s', exec (runVerify actions) s = (.ok outcomes, s') ∧ standing s' = standing s ∧
      List.Forall₂ (fun a o => ∃ answer, o = outcomeOf a answer) actions outcomes := by
  induction actions generalizing s with
  | nil => exact ⟨[], s, rfl, rfl, .nil⟩
  | cons a rest ih =>
    let s₁ := (exec (runAction a) s).2
    let o := outcomeOf a (exec (runAction a) s).1
    have hs₁ : standing s₁ = standing s := moves_evaluate _ s
    -- What is noted in the trace makes no difference to what follows.
    have hnext (level : TraceLevel) (message : String) : ∃ outcomes s',
        exec (trace level message >>= fun _ => runVerify rest >>= fun os => pure (o :: os)) s₁ =
          (.ok outcomes, s') ∧ standing s' = standing s ∧
        List.Forall₂ (fun a o => ∃ answer, o = outcomeOf a answer) (a :: rest) outcomes := by
      obtain ⟨s₂, hs₂⟩ : ∃ s₂, exec (trace level message) s₁ = (.ok (), s₂) := ⟨_, rfl⟩
      obtain ⟨outcomes, s', hrest, hs', hall⟩ := ih s₂
      refine ⟨o :: outcomes, s', ?_, ?_, .cons ⟨_, rfl⟩ hall⟩
      · rw [exec_bind_of_ok hs₂, exec_bind_of_ok hrest]
        rfl
      · exact hs'.trans ((standing_of_exec (moves_trace _ _) hs₂).trans hs₁)
    have houtcome : exec (runAction a).outcome s = (.ok (exec (runAction a) s).1, s₁) := rfl
    unfold runVerify
    rw [exec_bind_of_ok houtcome]
    by_cases hp : o.passed
    · simpa only [o, hp, if_true] using hnext _ _
    · simpa only [o, hp, Bool.false_eq_true, if_false] using hnext _ _

/-! ## Phases -/

theorem exists_exec_enter (p : Phase) (name : String) (s : CaseRun) :
    ∃ s', exec (enter p name) s = (.ok (), s') ∧
      standing s' = (s.result.entered p, s.bench.executors.contains) :=
  ⟨_, rfl, rfl⟩

theorem exists_exec_bindGlobals (c : Case) (s : CaseRun) :
    ∃ s', exec (bindGlobals c) s = (.ok (), s') ∧ standing s' = standing s := by
  unfold bindGlobals
  by_cases hb : (!c.globals.isEmpty || !c.patterns.isEmpty) = true
  · rw [if_pos hb]
    exact ⟨_, rfl, rfl⟩
  · rw [if_neg hb]
    exact ⟨_, rfl, rfl⟩

theorem exists_exec_prepare (c : Case) (s : CaseRun) :
    ∃ s', exec (prepare c) s = (.ok (), s') ∧
      standing s' = (s.result.entered .preCommand, s.bench.executors.contains) := by
  obtain ⟨s₁, h₁, hs₁⟩ := exists_exec_enter .preCommand "pre_command" s
  obtain ⟨s₂, h₂, hs₂⟩ := exists_exec_bindGlobals c s₁
  exact ⟨s₂, exec_bind_eq_ok.mpr ⟨(), s₁, h₁, h₂⟩, hs₂.trans hs₁⟩

/-- Actions of a phase leave the result in that phase, whatever they give. -/
theorem standing_of_exec_enter_runActions {p : Phase} {name : String} {actions : List Action}
    {r : Except Error Unit} {s s' : CaseRun}
    (h : exec (enter p name >>= fun _ => runActions actions) s = (r, s')) :
    standing s' = (s.result.entered p, s.bench.executors.contains) := by
  obtain ⟨s₁, h₁, hs₁⟩ := exists_exec_enter p name s
  rw [exec_bind_of_ok h₁] at h
  exact (standing_of_exec (moves_runActions _) h).trans hs₁

/-- What a case does before an error can stop it, and then its phases one after another. -/
theorem runFatalPhases_eq (c : Case) :
    runFatalPhases c = (do
      prepare c
      runActions c.preCommand
      enter .steps "steps"
      runSteps c.steps
      enter .postCommand "post_command"
      runActions c.postCommand) := by
  simp only [runFatalPhases, prepare, bind_assoc]

variable {c : Case} {module : String} {b : Bench} {s s' : CaseRun} {e : Error}

/-- Once its pre-commands are done, a case has got through no step. -/
theorem standing_of_exec_preCommands (h : exec (prepare c) (c.opened module b) = (.ok (), s))
    (h' : exec (runActions c.preCommand) s = (.ok (), s')) :
    standing s' = ((CaseResult.ofCase c module).entered .preCommand,
      b.executors.contains) := by
  obtain ⟨s₁, hs₁, hstanding⟩ := exists_exec_prepare c (c.opened module b)
  obtain rfl : s₁ = s := congrArg Prod.snd (hs₁.symm.trans h)
  exact (standing_of_exec (moves_runActions _) h').trans hstanding

/-- Up to a step, a case counts the steps in front of it. -/
theorem standing_of_exec_upToStep {i : ℕ}
    (h : exec (upToStep c i) (c.opened module b) = (.ok (), s)) :
    standing s = (((CaseResult.ofCase c module).tally b.executors.contains (c.steps.take i)).entered
      .steps, b.executors.contains) := by
  obtain ⟨_, s₁, h₁, h⟩ := exec_bind_eq_ok.mp h
  obtain ⟨_, s₂, h₂, h⟩ := exec_bind_eq_ok.mp h
  obtain ⟨_, s₃, h₃, h⟩ := exec_bind_eq_ok.mp h
  have hs₂ := standing_of_exec_preCommands h₁ h₂
  obtain ⟨s₄, h₄, hs₄⟩ := exists_exec_enter .steps "steps" s₂
  obtain rfl : s₄ = s₃ := congrArg Prod.snd (h₄.symm.trans h₃)
  simp only [standing, Prod.mk.injEq] at hs₂ hs₄
  rw [standing_of_exec_runSteps_ok h, hs₄.1, hs₄.2, hs₂.1, hs₂.2]
  rfl

/-- A case that no error stops has got through all of its steps. -/
theorem standing_of_exec_runFatalPhases_ok
    (h : exec (runFatalPhases c) (c.opened module b) = (.ok (), s)) :
    standing s = (((CaseResult.ofCase c module).tally b.executors.contains c.steps).entered
      .postCommand, b.executors.contains) := by
  rw [runFatalPhases_eq] at h
  obtain ⟨_, s₁, h₁, h⟩ := exec_bind_eq_ok.mp h
  obtain ⟨_, s₂, h₂, h⟩ := exec_bind_eq_ok.mp h
  obtain ⟨_, s₃, h₃, h⟩ := exec_bind_eq_ok.mp h
  obtain ⟨_, s₄, h₄, h⟩ := exec_bind_eq_ok.mp h
  have hupTo : exec (upToStep c c.steps.length) (c.opened module b) = (.ok (), s₄) := by
    unfold upToStep
    rw [exec_bind_of_ok h₁, exec_bind_of_ok h₂, exec_bind_of_ok h₃, List.take_length, h₄]
  have hs₄ := standing_of_exec_upToStep hupTo
  simp only [standing, Prod.mk.injEq, List.take_length] at hs₄
  rw [standing_of_exec_enter_runActions h, hs₄.1, hs₄.2]
  rfl

/-- An error stops a case at some place, and the steps in front of that place are counted. -/
theorem exists_stopsAt_of_exec_runFatalPhases_error
    (h : exec (runFatalPhases c) (c.opened module b) = (.error e, s)) :
    ∃ p n, n ≤ c.steps.length ∧ c.StopsAt module b p n e ∧
      standing s =
        (((CaseResult.ofCase c module).tally b.executors.contains (c.steps.take n)).entered p,
          b.executors.contains) := by
  rw [runFatalPhases_eq] at h
  -- Each phase in turn is got through or gives the error; preparing gives none.
  rcases exec_bind_eq_error.mp h with h | ⟨_, s₁, h₁, h⟩
  · obtain ⟨s₁, h₁, -⟩ := exists_exec_prepare c (c.opened module b)
    cases h₁.symm.trans h
  rcases exec_bind_eq_error.mp h with h | ⟨_, s₂, h₂, h⟩
  · refine ⟨.preCommand, 0, Nat.zero_le _, .preCommand h₁ h, ?_⟩
    obtain ⟨s₂, h₂, hs₂⟩ := exists_exec_prepare c (c.opened module b)
    obtain rfl : s₂ = s₁ := congrArg Prod.snd (h₂.symm.trans h₁)
    exact (standing_of_exec (moves_runActions _) h).trans hs₂
  rcases exec_bind_eq_error.mp h with h | ⟨_, s₃, h₃, h⟩
  · cases h
  have hupTo (i : ℕ) {s₄ : CaseRun} (h₄ : exec (runSteps (c.steps.take i)) s₃ = (.ok (), s₄)) :
      exec (upToStep c i) (c.opened module b) = (.ok (), s₄) := by
    unfold upToStep
    rw [exec_bind_of_ok h₁, exec_bind_of_ok h₂, exec_bind_of_ok h₃, h₄]
  rcases exec_bind_eq_error.mp h with h | ⟨_, s₄, h₄, h⟩
  · obtain ⟨i, step, s₄, hget, h₄, herror⟩ := exists_of_exec_runSteps_error h
    have hi : i < c.steps.length := (List.getElem?_eq_some_iff.mp hget).1
    refine ⟨.steps, i, Nat.le_of_lt hi, .step hget (hupTo i h₄) herror, ?_⟩
    rw [standing_of_exec_runStep_error herror]
    exact standing_of_exec_upToStep (hupTo i h₄)
  · rw [← List.take_length (l := c.steps)] at h₄
    refine ⟨.postCommand, _, Nat.le_refl _, .postCommand (hupTo _ h₄) h, ?_⟩
    have hs₄ := standing_of_exec_upToStep (hupTo _ h₄)
    simp only [standing, Prod.mk.injEq] at hs₄
    rw [standing_of_exec_enter_runActions h, hs₄.1, hs₄.2]
    rfl

/-! ## The verdict -/

theorem Completed.not_stopped {r : CaseResult} (h : Completed c b r) : ¬ Stopped c module b r := by
  intro h'
  obtain ⟨e, -, hstops⟩ := h'.error
  rw [h.phase] at hstops
  cases hstops

/-- The outcome of a computation is a value, whatever the computation gives. -/
theorem exec_outcome {α : Type} (m : Running α) (s : CaseRun) :
    exec m.outcome s = (.ok (exec m s).1, (exec m s).2) := rfl

/-- A case that no error stops is verified. -/
theorem completed_of_exec_runFatalPhases_ok
    (h : exec (runFatalPhases c) (c.opened module b) = (.ok (), s)) :
    Completed c b (exec (runPhases c) (c.opened module b)).2.result := by
  have hs := standing_of_exec_runFatalPhases_ok h
  obtain ⟨s₁, h₁, hs₁⟩ := exists_exec_enter .verify "verify" s
  obtain ⟨outcomes, s₂, h₂, hs₂, hall⟩ := exists_exec_runVerify c.verify s₁
  have houtcome := exec_outcome (runFatalPhases c) (c.opened module b)
  rw [h] at houtcome
  -- The result is that of the steps, finished with the outcomes.
  have hresult : (exec (runPhases c) (c.opened module b)).2.result = s₂.result.finish outcomes := by
    unfold runPhases
    rw [exec_bind_of_ok houtcome]
    show (exec (enter .verify "verify" >>= fun _ => runVerify c.verify >>= fun verifies =>
      updateResult fun r => r.finish verifies) s).2.result = _
    rw [exec_bind_of_ok h₁, exec_bind_of_ok h₂]
    rfl
  simp only [standing, Prod.mk.injEq] at hs hs₁ hs₂
  rw [hresult, hs₂.1, hs₁.1, hs.1]
  have hprocessed := CaseResult.processed_tally (.ofCase c module) b.executors.contains c.steps
  constructor
  case phase => rfl
  case error => rfl
  case verifies => exact hall
  case processed => exact hprocessed.trans (Nat.zero_add _)
  case skipped => exact Nat.zero_add _
  case status => rfl

/-- An error before a case is verified stops it. -/
theorem stopped_of_exec_runFatalPhases_error
    (h : exec (runFatalPhases c) (c.opened module b) = (.error e, s)) :
    Stopped c module b (exec (runPhases c) (c.opened module b)).2.result := by
  obtain ⟨p, n, hn, hstops, hs⟩ := exists_stopsAt_of_exec_runFatalPhases_error h
  have houtcome := exec_outcome (runFatalPhases c) (c.opened module b)
  rw [h] at houtcome
  have hresult : (exec (runPhases c) (c.opened module b)).2.result = s.result.fail e := by
    unfold runPhases
    rw [exec_bind_of_ok houtcome]
    rfl
  simp only [standing, Prod.mk.injEq] at hs
  rw [hresult, hs.1]
  -- As many steps are counted as are in front of the place of the error.
  have hprocessed : ((CaseResult.ofCase c module).tally b.executors.contains
      (c.steps.take n)).processed = n := by
    rw [CaseResult.processed_tally, List.length_take, Nat.min_eq_left hn]
    exact Nat.zero_add n
  constructor
  case status => rfl
  case verifies => rfl
  case error => exact ⟨e, rfl, hprocessed.symm ▸ hstops⟩
  case skipped =>
    show 0 + _ = List.countP _ (c.steps.take (CaseResult.processed (CaseResult.tally _ _ _)))
    rw [hprocessed, Nat.zero_add]

end Case

end Casebook
