import Casebook.Json.Printer

/-!
# Values as text

A value that is inserted into text stands there as its rendering: a string as it is, anything
else as JSON.
-/

namespace Casebook.Value

/-- The text of a value inside other text. -/
def render : Value → String
  | .string s => s
  | v => Json.compact v

/-- The text a step result is searched in: its `text` or `body` if that is a string, else the
rendering of the whole result. -/
def resultText (v : Value) : String :=
  match (v.field? "text").bind text?, (v.field? "body").bind text? with
  | some s, _ => s
  | none, some s => s
  | none, none => v.render

end Casebook.Value
