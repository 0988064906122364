import Casebook.Decimal.Reading
import Casebook.Value.Basic
import Casebook.Yaml.Token

/-!
# Types of YAML scalars

A plain scalar is null, a truth value, an integer, a floating point number or, if it is none of
these, a string. Integers may be written in four bases. Digits behind a leading zero are a
string, and so is a number too large to be finite.
-/

namespace Casebook.Yaml

/-- Whether a text is one of the words for null. -/
def isNull (s : String) : Bool :=
  s = "null" || s = "Null" || s = "NULL" || s = "~"

/-- The truth value that a text is a word for. -/
def bool? (s : String) : Option Bool :=
  if s = "true" || s = "True" || s = "TRUE" then some true
  else if s = "false" || s = "False" || s = "FALSE" then some false
  else none

/-- Whether a text is digits behind a leading zero, perhaps with a sign. -/
def isZeroPadded (s : List Char) : Bool :=
  let digits := match s with
    | '-' :: rest => rest
    | '+' :: rest => rest
    | other => other
  1 < digits.length && digits.head? = some '0' && digits.all Decimal.isDigit

/-- A number without a sign, in the base that its mark says. -/
def magnitude? (s : List Char) : Option Nat :=
  match s with
  | '0' :: 'x' :: rest => digits? 16 rest
  | '0' :: 'o' :: rest => digits? 8 rest
  | '0' :: 'b' :: rest => digits? 2 rest
  | other => digits? 10 other
where
  /-- At least one digit to a base. -/
  digits? (base : Nat) (s : List Char) : Option Nat :=
    if s.isEmpty then none else Decimal.natOfDigitsBase base s

/-- The integer that a text is. -/
def int? (s : List Char) : Option Int :=
  if isZeroPadded s then none
  else
    match s with
    | '-' :: rest => (magnitude? rest).map fun n => -(n : Int)
    | '+' :: rest => (magnitude? rest).map Int.ofNat
    | other => (magnitude? other).map Int.ofNat

/-- The least and the greatest integer that is read as one. -/
def minWide : Int := -0x80000000000000000000000000000000

@[inherit_doc minWide] def maxWide : Int := 0xFFFFFFFFFFFFFFFFFFFFFFFFFFFFFFFF

/-- The floating point number that a text is, the words for infinity and not-a-number included. -/
def float? (s : String) : Option Float :=
  let unsigned := s.toList.drop (if s.startsWith "+" then 1 else 0)
  if [".inf", ".Inf", ".INF"].contains (String.ofList unsigned) then some (1 / 0)
  else if ["-.inf", "-.Inf", "-.INF"].contains s then some (-1 / 0)
  else if [".nan", ".NaN", ".NAN"].contains s then some (0 / 0)
  else (Decimal.float? s.toList).filter Float.isFinite

/-- A floating point number as a value; null if it is not finite. -/
def ofFloat (x : Float) : Value :=
  if x.isFinite then .number (.float x) else .null

/-- An integer as a value; none if it is out of range. -/
def ofInt? (i : Int) : Option Value :=
  if Number.minInt ≤ i ∧ i ≤ Number.maxInt then some (.int i) else none

/-- The value of a plain scalar; none for an integer that is read as one but is out of range. -/
def plainValue? (s : String) : Option Value :=
  if s = "" || isNull s then some .null
  else
    match bool? s with
    | some b => some (.bool b)
    | none =>
      match (int? s.toList).filter fun i => minWide ≤ i ∧ i ≤ maxWide with
      | some i => ofInt? i
      | none =>
        if isZeroPadded s.toList then some (.string s)
        else
          match float? s with
          | some x => some (ofFloat x)
          | none => some (.string s)

/-- The tags that ask for a type. -/
inductive TypeTag where
  | bool
  | int
  | float
  | null

namespace TypeTag

/-- The type that a tag asks for. -/
def ofTag? (tag : Tag) : Option TypeTag :=
  match tag.text? with
  | some "tag:yaml.org,2002:bool" => some bool
  | some "tag:yaml.org,2002:int" => some int
  | some "tag:yaml.org,2002:float" => some float
  | some "tag:yaml.org,2002:null" => some null
  | _ => none

/-- The value of a text of a type. -/
def value? : TypeTag → String → Option Value
  | bool, s => (bool? s).map Value.bool
  | int, s => ((int? s.toList).filter fun i => minWide ≤ i ∧ i ≤ maxWide).bind ofInt?
  | float, s => (float? s).map ofFloat
  | null, s => if isNull s then some .null else none

end TypeTag

end Casebook.Yaml
