import Casebook.Configuration
import Casebook.Context.Builtin
import Casebook.Run.Pipeline

/-!
# Runs

The cases of a run are run one after another in the store that the ones before them left; a case
that ends in an error stops none of those behind it. How one case is run may be replaced.
-/

namespace Casebook

/-- How one case of a module is run. -/
abbrev Strategy := Case → (module : String) → Bench → CaseResult × Bench

/-- What a run needs. -/
structure Runner where
  bench : Bench
  strategy : Strategy

namespace Runner

/-- A runner with the built-in verbs, no variables and no executors. -/
def start (clock : Nat) : Runner :=
  { bench := ⟨.withBuiltins clock, .empty, .empty⟩, strategy := Case.run }

/-- Change the context. -/
def updateContext (r : Runner) (f : Context → Context) : Runner :=
  { r with bench := { r.bench with context := f r.bench.context } }

/-- Bind variables before the run. -/
def seed (r : Runner) (values : Dict Value) : Runner :=
  r.updateContext fun c => { c with store := c.store.setAll values }

/-- A runner with the limit and the variables of a configuration. -/
def ofConfiguration (c : Configuration) (clock : Nat) : Runner :=
  ((start clock).updateContext fun context => context.setLimit c.depth).seed c.globals

/-- Register an executor for a kind of steps. -/
def register (r : Runner) (kind : StepKind) (executor : Executor) : Runner :=
  { r with bench := { r.bench with executors := r.bench.executors.register kind executor } }

/-- Run the cases of a module in order. -/
def runCases (r : Runner) (module : String) : List Case → List CaseResult × Runner
  | [] => ([], r)
  | c :: rest =>
    let (result, bench) := r.strategy c module r.bench
    let (results, r) := runCases { r with bench } module rest
    (result :: results, r)

/-- The variables of some names as a report shows them: deferred ones evaluated, or as they are if
that fails. -/
def expandVariables (c : Context) : List (String × Value) → Dict Value × Context
  | [] => ([], c)
  | (name, v) :: rest =>
    let (shown, c) :=
      if c.store.isDeferred name then
        match c.readVariable name with
        | (.ok expanded, c) => (expanded, c)
        | (.error _, c) => (v, c)
      else (v, c)
    let (entries, c) := expandVariables c rest
    ((name, shown) :: entries, c)

/-- The report of results. -/
def report (r : Runner) (results : List CaseResult) : Report × Runner :=
  let (values, context) := expandVariables r.bench.context r.bench.context.store.snapshot
  (.ofResults results values, r.updateContext fun _ => context)

/-- Run cases that belong to no testset. -/
def runAll (r : Runner) (cases : List Case) : Report × Runner :=
  let (results, r) := r.runCases Project.defaultModule cases
  r.report results

/-- The results of testsets in order. -/
def testsetResults (r : Runner) : List TestSet → List CaseResult × Runner
  | [] => ([], r)
  | t :: rest =>
    let (results, r) := r.runCases t.project.module t.cases
    let (more, r) := testsetResults r rest
    (results ++ more, r)

/-- Run testsets in order. -/
def runTestsets (r : Runner) (testsets : List TestSet) : Report × Runner :=
  let (results, r) := r.testsetResults testsets
  r.report results

/-- The records of the cases that were run. -/
def records (r : Runner) : List CaseTrace :=
  r.bench.recorder.records

end Runner

end Casebook
