import Casebook.Text.Split

/-!
# Command line arguments

A command takes paths, switches and options with a value, in any order; behind two hyphens
everything is a path. An option is followed by its value, or by an equals sign and the value.
-/

namespace Casebook.CommandLine

/-- Why arguments name no command to carry out. -/
inductive Stop where
  /-- The usage is asked for. -/
  | help
  /-- The version is asked for. -/
  | version
  /-- The arguments are wrong. -/
  | misuse
  deriving DecidableEq

/-- An option with a value. -/
structure OptionSpec where
  name : String
  /-- Whether it may be given more than once. -/
  isRepeatable : Bool
  /-- Whether its value may not be empty. -/
  isPath : Bool

/-- What a command takes. -/
structure Grammar where
  options : List OptionSpec
  /-- The switches, each with its letter if it has one. -/
  switches : List (String × Option Char)
  /-- Whether it takes paths, at least one. -/
  takesPaths : Bool

/-- What a command was given. -/
structure Given where
  values : List (String × String)
  switches : List String
  paths : List String

namespace Given

/-- Nothing. -/
def nothing : Given := ⟨[], [], []⟩

/-- The values of an option, in order. -/
def valuesOf (g : Given) (name : String) : List String :=
  (g.values.filter fun entry => entry.1 = name).map Prod.snd

/-- The value of an option. -/
def valueOf? (g : Given) (name : String) : Option String :=
  (g.valuesOf name).head?

/-- Whether a switch is on. -/
def isOn (g : Given) (name : String) : Bool :=
  g.switches.contains name

/-- Add a path. -/
def addPath (grammar : Grammar) (g : Given) (path : String) : Except Stop Given :=
  if grammar.takesPaths && path ≠ "" then .ok { g with paths := g.paths ++ [path] }
  else .error .misuse

/-- Add the value of an option. -/
def addValue (spec : OptionSpec) (g : Given) (value : String) : Except Stop Given :=
  if (!spec.isRepeatable && (g.valueOf? spec.name).isSome) || (spec.isPath && value = "") then
    .error .misuse
  else .ok { g with values := g.values ++ [(spec.name, value)] }

/-- Turn a switch on. -/
def addSwitch (g : Given) (name : String) : Except Stop Given :=
  if g.isOn name then .error .misuse else .ok { g with switches := g.switches ++ [name] }

/-- Turn on the switches of letters. -/
def addLetters (grammar : Grammar) (g : Given) : List Char → Except Stop Given
  | [] => .ok g
  | c :: rest =>
    match grammar.switches.find? fun entry => entry.2 = some c with
    | some (name, _) => do addLetters grammar (← g.addSwitch name) rest
    | none => .error (if c = 'h' then .help else .misuse)

/-- Whether an argument is written like an option. -/
def looksLikeOption (arg : String) : Bool :=
  arg.startsWith "-" && 1 < arg.length

/-- Add an argument behind two hyphens; the option it leaves without a value, if it does. -/
def addLong (grammar : Grammar) (g : Given) (name : String) (value : Option String) :
    Except Stop (Given × Option OptionSpec) :=
  match grammar.options.find? (fun spec => spec.name = name), value with
  | some spec, some v => (g.addValue spec v).map fun g => (g, none)
  | some spec, none => .ok (g, some spec)
  | none, some _ => .error .misuse
  | none, none =>
    if grammar.switches.any fun entry => entry.1 = name then
      (g.addSwitch name).map fun g => (g, none)
    else .error (if name = "help" then .help else .misuse)

/-- Add an argument; the option it leaves without a value, if it does. -/
def addOne (grammar : Grammar) (g : Given) (arg : String) :
    Except Stop (Given × Option OptionSpec) :=
  match arg.toList with
  | '-' :: '-' :: long =>
    match Text.splitOnce? '=' long with
    | some (name, value) => addLong grammar g (String.ofList name) (some (String.ofList value))
    | none => addLong grammar g (String.ofList long) none
  | '-' :: c :: letters => (g.addLetters grammar (c :: letters)).map fun g => (g, none)
  | _ => (g.addPath grammar arg).map fun g => (g, none)

/-- Add arguments behind an option that has no value yet, or behind none. -/
def add (grammar : Grammar) (g : Given) (pending : Option OptionSpec) :
    List String → Except Stop Given
  | [] => if pending.isSome then .error .misuse else .ok g
  | arg :: rest =>
    match pending with
    | some spec =>
      if looksLikeOption arg then .error .misuse
      else do add grammar (← g.addValue spec arg) none rest
    | none =>
      if arg = "--" then rest.foldlM (addPath grammar) g
      else do
        let (g, pending) ← addOne grammar g arg
        add grammar g pending rest

end Given

/-- What a command is given by arguments. -/
def Grammar.read (grammar : Grammar) (args : List String) : Except Stop Given := do
  let g ← Given.nothing.add grammar none args
  if grammar.takesPaths && g.paths.isEmpty then throw .misuse
  return g

/-! ## Commands -/

/-- How testsets are run. -/
structure RunOptions where
  paths : List String
  assignments : List String
  report : Option String
  trace : Option String
  configuration : Option String
  logFile : Option String
  verbose : Bool

/-- How testsets are checked. -/
structure CheckOptions where
  paths : List String
  configuration : Option String
  json : Bool

/-- What is to be done. -/
inductive Command where
  /-- Run testsets. -/
  | run (o : RunOptions)
  /-- Load testsets and list their cases. -/
  | check (o : CheckOptions)
  /-- List the built-in verbs. -/
  | functions (json : Bool)

namespace Command

/-- What `run` takes. -/
def runGrammar : Grammar :=
  { options :=
      [⟨"var", true, false⟩, ⟨"report", false, true⟩, ⟨"trace", false, true⟩,
        ⟨"config", false, true⟩, ⟨"log-file", false, true⟩]
    switches := [("verbose", some 'v')]
    takesPaths := true }

/-- What `check` takes. -/
def checkGrammar : Grammar :=
  { options := [⟨"config", false, true⟩], switches := [("json", none)], takesPaths := true }

/-- What `functions` takes. -/
def functionsGrammar : Grammar :=
  { options := [], switches := [("json", none)], takesPaths := false }

/-- The command that arguments ask for. -/
def parse : List String → Except Stop Command
  | [] => .error .misuse
  | "run" :: args => do
    let g ← runGrammar.read args
    return .run
      { paths := g.paths
        assignments := g.valuesOf "var"
        report := g.valueOf? "report"
        trace := g.valueOf? "trace"
        configuration := g.valueOf? "config"
        logFile := g.valueOf? "log-file"
        verbose := g.isOn "verbose" }
  | "check" :: args => do
    let g ← checkGrammar.read args
    return .check
      { paths := g.paths, configuration := g.valueOf? "config", json := g.isOn "json" }
  | "functions" :: args => do
    let g ← functionsGrammar.read args
    return .functions (g.isOn "json")
  | "help" :: args =>
    if args.length ≤ 1 && args.all fun a => ["run", "check", "functions", "help"].contains a then
      .error .help
    else .error .misuse
  | arg :: _ =>
    if arg = "--version" || arg.startsWith "-V" then .error .version
    else if arg = "--help" || arg.startsWith "-h" then .error .help
    else .error .misuse

end Command

end Casebook.CommandLine
