import Casebook.Value.Basic
import Casebook.Decimal.Reading

/-!
# Typing of unquoted text

An argument without quotes and placeholders is a number, a truth value or null if it reads as
one, and text otherwise. Numbers are decimal, with no leading zeros; an integer that a signed
word does not hold becomes a floating point number.
-/

namespace Casebook.Literal

/-- Whether a text has the form of a number: it starts with a digit, perhaps behind a minus, all
its characters occur in numbers, and it has no leading zero. -/
def isNumeric (s : List Char) : Bool :=
  let digits :=
    match s with
    | '-' :: rest => rest
    | rest => rest
  let leadingZero := 1 < digits.length && digits.head? == some '0' && digits[1]? != some '.'
  (digits.head?.any Decimal.isDigit)
    && digits.all (fun c => Decimal.isDigit c || c ∈ ['.', 'e', 'E', '+', '-'])
    && !leadingZero

/-- The number a text reads as. -/
def number? (s : List Char) : Option Number :=
  match Decimal.int? s with
  | some i =>
    if Number.minInt ≤ i ∧ i ≤ Number.maxSigned then some (.int i)
    else (Decimal.float? s).bind Number.ofFloat?
  | none => (Decimal.float? s).bind Number.ofFloat?

/-- The value of an unquoted text. -/
def value (text : String) : Value :=
  if text = "true" ∨ text = "True" then .bool true
  else if text = "false" ∨ text = "False" then .bool false
  else if text = "null" ∨ text = "None" then .null
  else if isNumeric text.toList then
    match number? text.toList with
    | some n => .number n
    | none => .string text
  else .string text

end Casebook.Literal
