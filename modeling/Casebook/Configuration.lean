import Casebook.Definition.Source
import Casebook.Toml.Document

/-!
# Configuration

A configuration says where fragments lie, how deep templates may nest, where reports go and which
variables every run starts with. Each part is a table; the items of a list may stand for the fields
of a table in their order.
-/

namespace Casebook

/-- Where the reports of a run go. -/
structure Output where
  report : Option String
  trace : Option String
  logFile : Option String

/-- What a run is configured by. -/
structure Configuration where
  layout : Layout
  /-- How deep calls and deferred variables may nest. -/
  depth : Nat
  output : Output
  globals : Dict Value

namespace Configuration

/-- The configuration if nothing is said. -/
def standard : Configuration :=
  { layout := .standard, depth := defaultDepth, output := ⟨none, none, none⟩, globals := [] }

/-- The fields of a part, from a table or a list; none if it is neither. -/
def fields? (names : List String) : Value → Option (List (String × Value))
  | .object entries => some entries
  | .array items => some (names.zip items)
  | _ => none

/-- A field that is read in some way, or the default if it is left out. -/
def field {α : Type} (fields : List (String × Value)) (name : String) (read : Value → Option α)
    (default : α) : Option α :=
  match Dict.get? fields name with
  | none => some default
  | some v => read v

/-- A limit of nesting. -/
def limit? : Value → Option Nat
  | .number (.int i) => if 0 ≤ i then some i.toNat else none
  | _ => none

/-- Where fragments lie. -/
def layout? (v : Value) : Option Layout := do
  let fields ← fields? ["dependencies_dir", "api_dir", "suite_dir"] v
  return { Layout.standard with
    dependencies := ← field fields "dependencies_dir" Value.text? Layout.standard.dependencies
    apis := ← field fields "api_dir" Value.text? Layout.standard.apis
    suites := ← field fields "suite_dir" Value.text? Layout.standard.suites }

/-- How deep templates may nest. -/
def depth? (v : Value) : Option Nat := do
  field (← fields? ["max_depth"] v) "max_depth" limit? defaultDepth

/-- A text that may be left out. -/
def optionalText? (v : Value) : Option (Option String) :=
  v.text?.map some

/-- The fields of an output table. -/
def outputNames : List String := ["report", "trace", "log_file"]

/-- Where reports go; a list has to name all places. -/
def output? (v : Value) : Option Output := do
  let fields ← fields? outputNames v
  let isShort : Bool := match v with
    | .array items => items.length < outputNames.length
    | _ => false
  if isShort then none
  return {
    report := ← field fields "report" optionalText? none
    trace := ← field fields "trace" optionalText? none
    logFile := ← field fields "log_file" optionalText? none }

/-- The variables of a table. -/
def globals? : Value → Option (Dict Value)
  | .object entries => some entries
  | _ => none

/-- The configuration that a value is. The limit of nesting holds for loading as well. -/
def ofValue? (v : Value) : Option Configuration := do
  let fields ← fields? [] v
  let layout ← field fields "loader" layout? .standard
  let depth ← field fields "template" depth? defaultDepth
  let output ← field fields "output" output? standard.output
  let globals ← field fields "variables" globals? []
  return { layout := { layout with depth }, depth, output, globals }

/-- The configuration that a text is. -/
def parse (text : String) : Except Error Configuration :=
  match (Toml.read? text).bind ofValue? with
  | some c => .ok c
  | none => .error (.configurationSyntax Error.unreported)

/-- The configuration in the file at a path. -/
def readFile (files : Files) (path : String) : Except Error Configuration :=
  match files.read? path with
  | some text => parse text
  | none => .error (.configuration s!"Cannot read '{path}': {Error.unreported}")

/-- Set a variable from a text such as `key=value`. -/
def override (c : Configuration) (item : String) : Except Error Configuration :=
  match Text.splitOnce? '=' item.toList with
  | none => .error (.configuration s!"Expected KEY=VALUE, got '{item}'")
  | some (key, value) =>
    let key := String.ofList (Text.trim key)
    if key = "" then .error (.configuration s!"Empty variable name in '{item}'")
    else .ok { c with globals := c.globals.insert key (.string (String.ofList value)) }

/-- Set variables from texts, in order. -/
def overrideAll (c : Configuration) (items : List String) : Except Error Configuration :=
  items.foldlM override c

end Configuration

end Casebook
