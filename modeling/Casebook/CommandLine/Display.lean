import Casebook.Context.Builtin
import Casebook.Run.Report

/-!
# What is shown on the console

Testsets are shown with their cases, and cases with the verify actions or the error that decided
their verdict.
-/

namespace Casebook.CommandLine

/-- A text with spaces behind it up to some width. -/
def padded (width : Nat) (s : String) : String :=
  s ++ String.ofList (List.replicate (width - s.length) ' ')

/-- Text lines, each with a line feed behind it. -/
def lines (ls : List String) : String :=
  String.join (ls.map fun l => l ++ "\n")

/-- How a case is shown: its verdict and what decided it. -/
def caseLines (verbose : Bool) (r : CaseResult) : List String :=
  match r.status with
  | .passed =>
    s!"  ✓ {r.name}"
      :: (if verbose then r.verifies.map fun v => s!"      ✓ {v.action}" else [])
  | .failed =>
    s!"  ✗ {r.name}"
      :: r.failedVerifies.map fun v => s!"      ✗ {v.action}: {v.reason}"
  | .error =>
    s!"  ✗ {r.name}"
      :: r.error.toList.map fun e => s!"      {e.kind} in {e.phase.name}: {e.message}"

/-- How testsets are shown with the results of their cases, which are given in one list. -/
def runLines (verbose : Bool) : List TestSet → List CaseResult → List String
  | [], _ => []
  | t :: rest, results =>
    ["", s!"Testset: {t.project.name} [{t.project.module}]"]
      ++ (results.take t.cases.length).flatMap (caseLines verbose)
      ++ runLines verbose rest (results.drop t.cases.length)

/-- How the sums of a run are shown. -/
def summaryLines (r : Report) : List String :=
  let mark := if r.passed then "✓" else "✗"
  let s := r.summary
  ["", s!"{mark} {s.total} case(s): {s.passed} passed, {s.failed} failed, {s.errors} error(s)", ""]

/-- How a case that is not run is shown. -/
def checkLine (c : Case) : String :=
  s!"  • {padded 32 c.name} {c.steps.length} step(s), {c.verify.length} verify"

/-- How testsets that are not run are shown. -/
def checkLines (testsets : List TestSet) : List String :=
  let shown := testsets.flatMap fun t =>
    s!"Testset: {t.project.name} ({t.path})" :: t.cases.map checkLine
  let total := (testsets.flatMap fun t => t.cases).length
  shown ++ ["", s!"✓ {testsets.length} testset(s), {total} case(s)"]

/-- How a built-in verb is shown. -/
def builtinLine (b : Builtin) : String :=
  s!"  {padded 14 b.name} {padded 28 b.verb.signature.text} {b.description}"

/-- How the built-in verbs are shown. -/
def builtinLines : List String :=
  "Built-in verbs:" :: Builtin.all.map builtinLine

/-- A built-in verb as a document shows it. -/
def builtinValue (b : Builtin) : Value :=
  .object [("arity", .string b.verb.signature.arity), ("description", .string b.description),
    ("name", .string b.name), ("signature", .string b.verb.signature.text)]

end Casebook.CommandLine
