import Casebook.Definition.Case
import Casebook.Text.Word

/-!
# Valid runs

The cases of a run have well-formed ids, each of its own, and steps. This is checked once suites are
expanded, since a suite may build ids from its parameters.
-/

namespace Casebook.Case

/-- Whether a character may stand in an id. -/
def isIdChar (c : Char) : Bool :=
  Text.isAlphanumeric c || c = '_' || c = '-'

/-- Whether a text is an id. -/
def isValidId (id : String) : Bool :=
  id ≠ "" && id.toList.all isIdChar

/-- What is wrong with a case behind cases of these ids. -/
def fault? (seen : List String) (c : Case) : Option Error :=
  if !isValidId c.id then
    some (.malformed s!"case '{c.id}'" "case ids may only contain letters, digits, '_' and '-'")
  else if c.steps.isEmpty then some (.missingField "steps" s!"case '{c.id}'")
  else if c.id ∈ seen then some (.duplicateCaseId c.id)
  else none

/-- Check cases behind cases of these ids. -/
def validateFrom (seen : List String) : List Case → Except Error Unit
  | [] => .ok ()
  | c :: rest =>
    match fault? seen c with
    | some e => .error e
    | none => validateFrom (c.id :: seen) rest

/-- Check the cases of a run; the first case with a fault is reported. -/
def validate (cases : List Case) : Except Error Unit :=
  validateFrom [] cases

end Casebook.Case
