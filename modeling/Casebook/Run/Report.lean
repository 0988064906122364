import Casebook.Definition.Case
import Casebook.Json.Printer

/-!
# Reports

Each case ends in a result: it passed, one of its verify actions failed, or an error stopped it in
one of its phases. A report holds the results of a run with their sums, and the variables as they
were when the last case ended.
-/

namespace Casebook

/-- The phases of a case, in the order in which it goes through them. -/
inductive Phase where
  | start
  | preCommand
  | steps
  | postCommand
  | verify
  | done
  deriving DecidableEq

namespace Phase

/-- The name of a phase. -/
def name : Phase → String
  | start => "START"
  | preCommand => "PRE_COMMAND"
  | steps => "STEPS"
  | postCommand => "POST_COMMAND"
  | verify => "VERIFY"
  | done => "DONE"

/-- The place of a phase in the order. -/
def rank : Phase → Nat
  | start => 0
  | preCommand => 1
  | steps => 2
  | postCommand => 3
  | verify => 4
  | done => 5

/-- All phases, in order. -/
def all : List Phase :=
  [start, preCommand, steps, postCommand, verify, done]

/-- The phase of a name. -/
def ofName? (name : String) : Option Phase :=
  all.find? fun p => p.name = name

end Phase

/-- The verdict on a case. -/
inductive CaseStatus where
  | passed
  /-- A verify action failed. -/
  | failed
  /-- An error stopped the case. -/
  | error
  deriving DecidableEq

namespace CaseStatus

/-- The name of a verdict. -/
def name : CaseStatus → String
  | .passed => "passed"
  | .failed => "failed"
  | .error => "error"

end CaseStatus

/-- The error that stopped a case. -/
structure CaseError where
  phase : Phase
  kind : String
  category : ErrorCategory
  message : String
  deriving DecidableEq

/-- What came of a verify action. -/
structure VerifyOutcome where
  action : String
  passed : Bool
  message : Option String
  deriving DecidableEq

/-- Why a verify action did not pass. -/
def VerifyOutcome.reason (o : VerifyOutcome) : String :=
  o.message.getD "failed"

/-- What came of a case. -/
structure CaseResult where
  id : String
  name : String
  desc : String
  module : String
  status : CaseStatus
  /-- The last phase that was entered. -/
  phase : Phase
  error : Option CaseError
  verifies : List VerifyOutcome
  stepsRun : Nat
  /-- How many steps no executor was there for. -/
  stepsSkipped : Nat
  deriving DecidableEq

namespace CaseResult

/-- The result of a case that is about to start. -/
def ofCase (c : Case) (module : String) : CaseResult :=
  { id := c.id, name := c.name, desc := c.desc, module, status := .passed, phase := .start,
    error := none, verifies := [], stepsRun := 0, stepsSkipped := 0 }

/-- Stop in the phase that was entered last. -/
def fail (r : CaseResult) (e : Error) : CaseResult :=
  { r with status := .error, error := some ⟨r.phase, e.kind, e.category, e.message⟩ }

/-- End with the outcomes of the verify actions. -/
def finish (r : CaseResult) (verifies : List VerifyOutcome) : CaseResult :=
  { r with
    phase := .done
    status := if verifies.all VerifyOutcome.passed then .passed else .failed
    verifies }

/-- Whether a case passed. -/
def passed (r : CaseResult) : Bool :=
  r.status = .passed

/-- Whether a case got at least as far as a phase. -/
def reached (r : CaseResult) (p : Phase) : Bool :=
  p.rank ≤ r.phase.rank

/-- The verify actions that failed. -/
def failedVerifies (r : CaseResult) : List VerifyOutcome :=
  r.verifies.filter fun v => !v.passed

/-- An error as a report shows it. -/
def errorValue (e : CaseError) : Value :=
  .object [("phase", .string e.phase.name), ("kind", .string e.kind),
    ("category", .string e.category.name), ("message", .string e.message)]

/-- An outcome as a report shows it. -/
def outcomeValue (v : VerifyOutcome) : Value :=
  .object ([("action", .string v.action), ("passed", .bool v.passed)]
    ++ v.message.toList.map fun s => ("message", .string s))

/-- A result as a report shows it. -/
def toValue (r : CaseResult) : Value :=
  .object
    ([("id", .string r.id), ("name", .string r.name), ("desc", .string r.desc),
        ("module", .string r.module), ("status", .string r.status.name),
        ("terminal_phase", .string r.phase.name)]
      ++ (r.error.toList.map fun e => ("error", errorValue e))
      ++ [("verifies", .array (r.verifies.map outcomeValue)), ("steps_run", .nat r.stepsRun),
        ("steps_skipped", .nat r.stepsSkipped)])

end CaseResult

/-- How many cases there were, and how many of each verdict. -/
structure Summary where
  total : Nat
  passed : Nat
  failed : Nat
  errors : Nat
  deriving DecidableEq

namespace Summary

/-- The sums of results. -/
def ofResults (results : List CaseResult) : Summary :=
  { total := results.length
    passed := results.countP fun r => r.status = .passed
    failed := results.countP fun r => r.status = .failed
    errors := results.countP fun r => r.status = .error }

/-- Sums as a report shows them. -/
def toValue (s : Summary) : Value :=
  .object [("total", .nat s.total), ("passed", .nat s.passed), ("failed", .nat s.failed),
    ("errors", .nat s.errors)]

end Summary

/-- What came of a run. -/
structure Report where
  summary : Summary
  cases : List CaseResult
  /-- The variables when the last case ended. -/
  context : Dict Value

namespace Report

/-- The report of results and variables. -/
def ofResults (results : List CaseResult) (context : Dict Value) : Report :=
  ⟨.ofResults results, results, context⟩

/-- Whether no case failed or was stopped by an error. -/
def passed (r : Report) : Bool :=
  r.summary.failed = 0 && r.summary.errors = 0

/-- The first result with an id. -/
def find? (r : Report) (id : String) : Option CaseResult :=
  r.cases.find? fun c => c.id = id

/-- A report as a document. -/
def toValue (r : Report) : Value :=
  .object [("summary", r.summary.toValue), ("cases", .array (r.cases.map CaseResult.toValue)),
    ("context", .object r.context)]

/-- The text of a report. -/
def text (r : Report) : String :=
  Json.pretty r.toValue

end Report

end Casebook
