import Casebook.Context.Evaluation
import Casebook.Run.Executor
import Casebook.Run.Report
import Casebook.Run.Trace

/-!
# Running a case

A case goes through its phases in order: its globals are bound and its pre-commands run, then its
steps, then its post-commands. The first error in one of these ends the case in that phase. A case
that gets through is verified: every verify action runs, whatever the others gave.
-/

namespace Casebook

/-- What the cases of a run share. -/
structure Bench where
  context : Context
  recorder : Recorder
  executors : Executors

/-- A case that is running. -/
structure CaseRun where
  bench : Bench
  result : CaseResult

/-- A computation of a running case; an error ends the case. -/
abbrev Running (α : Type) := ExceptT Error (StateM CaseRun) α

namespace Running

variable {α : Type}

/-- Change what the cases share. -/
def update (f : Bench → Bench) : Running Unit :=
  modify fun s => { s with bench := f s.bench }

/-- Note something in the trace. -/
def trace (level : TraceLevel) (message : String) : Running Unit :=
  update fun b => { b with recorder := b.recorder.add level message }

/-- Evaluate in the context. -/
def evaluate (f : Context → Except Error α × Context) : Running α :=
  ExceptT.mk fun s =>
    let (result, context) := f s.bench.context
    (result, { s with bench := { s.bench with context } })

/-- Change the store. -/
def updateStore (f : Store → Store) : Running Unit :=
  update fun b => { b with context := { b.context with store := f b.context.store } }

/-- The outcome of a computation, be it a value or an error. -/
def outcome (action : Running α) : Running (Except Error α) :=
  ExceptT.mk fun s =>
    let (result, s) := action.run.run s
    (.ok result, s)

/-- Change the result of the case. -/
def updateResult (f : CaseResult → CaseResult) : Running Unit :=
  modify fun s => { s with result := f s.result }

/-- Enter a phase, under a name that the trace shows. -/
def enter (p : Phase) (name : String) : Running Unit := do
  updateResult fun r => { r with phase := p }
  trace .section name

end Running

namespace Case

open Running

/-- Bind the variables and patterns of a case. -/
def bindGlobals (c : Case) : Running Unit := do
  updateStore fun s =>
    c.patterns.foldl (fun s entry => s.setPattern entry.1 entry.2) (s.defineAll c.globals)
  if !c.globals.isEmpty || !c.patterns.isEmpty then
    trace .normal s!"bound {c.globals.length} variable(s), {c.patterns.length} pattern(s)"

/-- Evaluate an action. -/
def runAction (a : Action) : Running Value :=
  evaluate fun context => context.evaluateCall a.call

/-- Evaluate actions in order, up to the first error. -/
def runActions : List Action → Running Unit
  | [] => return
  | a :: rest => do
    let v ← runAction a
    trace .normal s!"{a.source} -> {v.render}"
    runActions rest

/-- Call the executor of a kind of steps. -/
def execute (kind : StepKind) (fields : Value) : Running (Option Value) :=
  ExceptT.mk fun s =>
    match s.bench.executors.execute kind fields s.bench.context.store with
    | none => (.ok none, s)
    | some (answer, executors) => (answer.map some, { s with bench := { s.bench with executors } })

/-- Carry out a step, unless its kind has no executor; then it is skipped before its fields are
evaluated. -/
def runStep (step : Step) : Running Unit := do
  if !(← get).bench.executors.contains step.kind then
    trace .normal s!"skipped '{step.kind.key}' step: no executor"
    updateResult fun r => { r with stepsSkipped := r.stepsSkipped + 1 }
  else
    let fields ← evaluate fun context => context.resolveValue step.fields
    trace .step s!"{step.kind.key} {Json.compact fields}"
    match ← execute step.kind fields with
    | none => return
    | some v =>
      updateStore fun s =>
        (match step.result with
          | some name => s.set name v
          | none => s).setLastResult v
      updateResult fun r => { r with stepsRun := r.stepsRun + 1 }

/-- Carry out steps in order, up to the first error. -/
def runSteps : List Step → Running Unit
  | [] => return
  | step :: rest => do
    runStep step
    runSteps rest

/-- The phases in which an error ends the case. -/
def runFatalPhases (c : Case) : Running Unit := do
  enter .preCommand "pre_command"
  bindGlobals c
  runActions c.preCommand
  enter .steps "steps"
  runSteps c.steps
  enter .postCommand "post_command"
  runActions c.postCommand

/-- What an error of a verify action is reported as. -/
def verifyMessage : Error → String
  | .assertion problem => problem
  | e => e.message

/-- The outcome of a verify action. -/
def outcomeOf (a : Action) : Except Error Value → VerifyOutcome
  | .ok (.bool false) => ⟨a.source, false, some s!"{a.source} evaluated to false"⟩
  | .ok _ => ⟨a.source, true, none⟩
  | .error e => ⟨a.source, false, some (verifyMessage e)⟩

/-- Evaluate every verify action. -/
def runVerify : List Action → Running (List VerifyOutcome)
  | [] => return []
  | a :: rest => do
    let o := outcomeOf a (← (runAction a).outcome)
    if o.passed then trace .normal s!"verify {a.source}: pass"
    else trace .error s!"verify {a.source}: {o.reason}"
    return o :: (← runVerify rest)

/-- Run a case whose record is open. -/
def runPhases (c : Case) : Running Unit := do
  match ← (runFatalPhases c).outcome with
  | .ok () =>
    enter .verify "verify"
    let verifies ← runVerify c.verify
    updateResult fun r => r.finish verifies
  | .error e =>
    trace .error s!"{(← get).result.phase.name} failed: {e.message}"
    updateResult fun r => r.fail e

/-- Run a case of a module. -/
def run (c : Case) (module : String) (b : Bench) : CaseResult × Bench :=
  let opened := { b with
    recorder := b.recorder.start module c.name c.responsible c.tester }
  let s := ((runPhases c).run.run ⟨opened, .ofCase c module⟩).2
  (s.result, { s.bench with recorder := s.bench.recorder.stop })

end Case

end Casebook
