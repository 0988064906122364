import Casebook.Value.Basic
import Casebook.Decimal.Reading
import Casebook.Text.Split

/-!
# Dotted paths

A path such as `data.items.0.id` names a value inside a value: each part is a key of an object
or an index of a list. Empty parts are passed over.
-/

namespace Casebook.Value

/-- The value one step down: the entry under a key, or the item at an index. -/
def child? (v : Value) (part : List Char) : Option Value :=
  match v with
  | .object entries => Dict.get? entries (String.ofList part)
  | .array items => (Decimal.nat? part).bind fun index => items[index]?
  | _ => none

/-- The parts of a path that name something. -/
def pathParts (path : String) : List (List Char) :=
  (Text.splitOn '.' path.toList).filter fun part => !part.isEmpty

/-- Follow the parts of a path one after another. -/
def descend (v : Value) (parts : List (List Char)) : Option Value :=
  parts.foldlM child? v

/-- The value a path names. -/
def lookup (v : Value) (path : String) : Option Value :=
  v.descend (pathParts path)

end Casebook.Value
