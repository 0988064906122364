import Casebook.CommandLine.Arguments
import Casebook.CommandLine.Display
import Casebook.Composition.Loading
import Casebook.Run.Runner

/-!
# Carrying out commands

A command is carried out on files, which it may add to, and says what goes to the console and how
the program ends.
-/

namespace Casebook.CommandLine

/-- What a command finds around it. -/
structure Surroundings where
  /-- The configuration that is used if none is named and there is one. -/
  defaultConfiguration : Option String
  clock : Nat

/-- The console and the files while a command is carried out. -/
structure Console where
  output : String
  files : Files

/-- A computation that shows and writes; what it did before an error stays done. -/
abbrev Commanding (α : Type) := ExceptT Error (StateM Console) α

namespace Commanding

/-- A result that is there already. -/
def lift {α : Type} (result : Except Error α) : Commanding α :=
  ExceptT.mk (pure result)

/-- The files as they are now. -/
def files : Commanding Files :=
  return (← get).files

/-- Show lines. -/
def say (ls : List String) : Commanding Unit :=
  modify fun c => { c with output := c.output ++ lines ls }

/-- Write a value as a document, with folders on the way to it. -/
def write (path : String) (v : Value) : Commanding Unit := do
  match (← files).write path (some (Json.pretty v)) with
  | some files => modify fun c => { c with files }
  | none => throw (.io Error.unreported)

/-- Make sure that there is a log file, if there can be one. -/
def openLog (path : String) : Commanding Unit :=
  modify fun c =>
    if c.files.isFileAt path then c
    else { c with files := (c.files.write path (some "")).getD c.files }

/-- The configuration at a path, or the default one. -/
def configuration (around : Surroundings) (path : Option String) : Commanding Configuration := do
  let files ← files
  match path with
  | some path => lift (Configuration.readFile files path)
  | none =>
    match around.defaultConfiguration.filter files.isThere with
    | some path => lift (Configuration.readFile files path)
    | none => return .standard

end Commanding

open Commanding

/-- Run testsets; whether all cases passed. -/
def runTestsets (around : Surroundings) (o : RunOptions) : Commanding Bool := do
  let c ← configuration around o.configuration
  let c ← lift (c.overrideAll o.assignments)
  match o.logFile.or c.output.logFile with
  | some path => openLog path
  | none => pure ()
  let testsets ← lift (TestSet.loadAll (← files) c.layout o.paths)
  let (report, runner) := (Runner.ofConfiguration c around.clock).runTestsets testsets
  say (runLines o.verbose testsets report.cases ++ summaryLines report)
  match o.report.or c.output.report with
  | some path =>
    write path report.toValue
    say [s!"Report written to {path}"]
  | none => pure ()
  match o.trace.or c.output.trace with
  | some path =>
    write path (.array (runner.records.map CaseTrace.toValue))
    say [s!"Trace written to {path}"]
  | none => pure ()
  return report.passed

/-- Load testsets and list their cases. -/
def checkTestsets (around : Surroundings) (o : CheckOptions) : Commanding Bool := do
  let c ← configuration around o.configuration
  let testsets ← lift (TestSet.loadAll (← files) c.layout o.paths)
  if o.json then say [Json.pretty (.array (testsets.map TestSet.toValue))]
  else say (checkLines testsets)
  return true

/-- List the built-in verbs. -/
def listBuiltins (json : Bool) : Commanding Bool := do
  if json then say [Json.pretty (.array (Builtin.all.map builtinValue))]
  else say builtinLines
  return true

/-- Carry out a command; whether it went well. -/
def perform (around : Surroundings) : Command → Commanding Bool
  | .run o => runTestsets around o
  | .check o => checkTestsets around o
  | .functions json => listBuiltins json

/-- How the program ends. -/
structure Ending where
  status : Nat
  output : String
  /-- What is said about an error. -/
  complaint : Option String
  files : Files

/-- The version that the program shows. -/
def version : String := "stepcase 0.1.0"

/-- How the program is used. -/
def usage : List String :=
  [ "Declarative test-case engine",
    "",
    "Usage: stepcase <COMMAND>",
    "",
    "Commands:",
    "  run        Load, compose and run testsets",
    "  check      Load and compose testsets without running them",
    "  functions  List the built-in verbs" ]

/-- Carry out what arguments ask for. -/
def execute (around : Surroundings) (files : Files) (args : List String) : Ending :=
  match Command.parse args with
  | .error .help => ⟨0, lines usage, none, files⟩
  | .error .version => ⟨0, lines [version], none, files⟩
  | .error .misuse => ⟨2, "", some (Text.join "\n" usage), files⟩
  | .ok command =>
    let (result, console) := (perform around command).run.run ⟨"", files⟩
    match result with
    | .ok true => ⟨0, console.output, none, console.files⟩
    | .ok false => ⟨1, console.output, none, console.files⟩
    | .error e => ⟨1, console.output, some s!"Error: {e.message}", console.files⟩

end Casebook.CommandLine
