import Casebook.Json.Printer
import Casebook.Text.Blank
import Casebook.Text.Quoted
import Casebook.Error

/-!
# Steps

A step asks for one action in the system under test. It is written as a mapping with one entry,
whose key is the kind of the step and whose value its fields; next to it `result` may name a
variable for the answer.
-/

namespace Casebook

/-- What a step acts on. -/
inductive StepKind where
  | request
  | webDriver
  | mobileDriver
  | wpfDriver
  | mfcDriver
  /-- A kind that only an executor of its own knows. -/
  | other (name : String)
  deriving DecidableEq

namespace StepKind

/-- The kind that a key names. -/
def ofKey : String → StepKind
  | "request" => request
  | "webdriver" => webDriver
  | "mobiledriver" => mobileDriver
  | "wpfdriver" => wpfDriver
  | "mfcdriver" => mfcDriver
  | name => other name

/-- The key of a kind. -/
def key : StepKind → String
  | request => "request"
  | webDriver => "webdriver"
  | mobileDriver => "mobiledriver"
  | wpfDriver => "wpfdriver"
  | mfcDriver => "mfcdriver"
  | other name => name

/-- Whether a kind is one of the five that every run knows. -/
def isKnown : StepKind → Bool
  | other _ => false
  | _ => true

/-- The place of a kind among the five, and behind them all others. -/
def rank : StepKind → Nat
  | request => 0
  | webDriver => 1
  | mobileDriver => 2
  | wpfDriver => 3
  | mfcDriver => 4
  | other _ => 5

/-- Whether a kind comes before another. -/
def before (a b : StepKind) : Bool :=
  a.rank < b.rank || (a.rank = b.rank && a.key < b.key)

end StepKind

/-- One action in the system under test. -/
structure Step where
  kind : StepKind
  /-- What the action is about; texts in it are templates. -/
  fields : Value
  /-- The variable that is bound to the answer. -/
  result : Option String

namespace Step

/-- The key under which a step names its variable. -/
def resultKey : String := "result"

/-- The fields every request has. -/
def requestFields : List String := ["url", "method"]

/-- The variable for the answer. -/
def resultName (location : String) (v : Option Value) : Except Error (Option String) :=
  match v with
  | none => .ok none
  | some (.string name) =>
    if Text.trimmed name = "" then .error (refused (.string name))
    else .ok (some (Text.trimmed name))
  | some other => .error (refused other)
where
  /-- The entry names no variable. -/
  refused (v : Value) : Error :=
    .malformed location s!"step '{resultKey}' must be a variable name, got {Json.compact v}"

/-- Check the fields of a kind. -/
def checkFields (location : String) (kind : StepKind) (fields : Value) : Except Error Unit :=
  match kind, fields with
  | .other _, _ => .ok ()
  | .request, .object entries =>
    match requestFields.find? fun field => !Dict.contains entries field with
    | some field => .error (.missingField field s!"{location} request step")
    | none => .ok ()
  | _, .object _ => .ok ()
  | kind, _ => .error (.malformed location s!"'{kind.key}' step fields must be a mapping")

/-- The step that a mapping is. -/
def ofEntries (location : String) (entries : Dict Value) : Except Error Step := do
  let result ← resultName location (entries.get? resultKey)
  match entries.erase resultKey with
  | [(key, fields)] =>
    let kind := StepKind.ofKey key
    checkFields location kind fields
    return { kind, fields, result }
  | others =>
    throw (.malformed location
      s!"a step needs exactly one kind key, got {Text.quotedList (Dict.keys others)}")

/-- A step as a document shows it. -/
def toValue (s : Step) : Value :=
  .object ([("kind", .string s.kind.key), ("fields", s.fields)]
    ++ s.result.toList.map fun name => ("result", .string name))

end Step

end Casebook
