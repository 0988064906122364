import Casebook.Decimal.Shortest

/-!
# Numbers

A number in a document is an integer between -2^63 and 2^64 - 1, or a finite floating point
number; the two kinds are different values even where they are equal. `Number.text` writes one
the way it is shown in messages and documents.
-/

namespace Casebook

/-- A number of a document. -/
inductive Number where
  | int (i : Int)
  | float (x : Float)
  deriving DecidableEq, Inhabited

/-- How floating point numbers are written. -/
structure FloatFormat where
  /-- The smallest decimal exponent written in plain notation. -/
  plainFrom : Int
  /-- The smallest decimal exponent above plain notation. -/
  plainBelow : Int

namespace FloatFormat

/-- Zeros in front of or behind digits. -/
def zeros (n : Nat) : List Char :=
  List.replicate n '0'

/-- Digits with a point after the first `whole` of them, never without a fractional part. -/
def plain (digits : List Char) (whole : Int) : List Char :=
  if whole ≤ 0 then
    ['0', '.'] ++ zeros whole.natAbs ++ digits
  else if whole.toNat < digits.length then
    digits.take whole.toNat ++ ['.'] ++ digits.drop whole.toNat
  else
    digits ++ zeros (whole.toNat - digits.length) ++ ['.', '0']

/-- One digit, the others behind a point, and the exponent with its sign. -/
def scientific (digits : List Char) (exponent : Int) : List Char :=
  let fraction :=
    match digits.drop 1 with
    | [] => []
    | more => '.' :: more
  let sign := if exponent < 0 then '-' else '+'
  digits.take 1 ++ fraction ++ ['e', sign] ++ (toString exponent.natAbs).toList

/-- The text of a finite number. -/
def text (format : FloatFormat) (x : Float) : String :=
  let bits := x.toBits
  let sign := if bits >>> 63 = 0 then [] else ['-']
  let body :=
    if bits <<< 1 = 0 then ['0', '.', '0']
    else
      let s := Decimal.shortest (Decimal.Binary.ofBits bits)
      let digits := (toString s.digits).toList
      let exponent := s.exponent + digits.length - 1
      if format.plainFrom ≤ exponent && exponent < format.plainBelow then
        plain digits (exponent + 1)
      else scientific digits exponent
  String.ofList (sign ++ body)

end FloatFormat

namespace Number

/-- Numbers from 1e-5 up to 1e16 are written plainly, all others with an exponent. -/
def floatFormat : FloatFormat :=
  { plainFrom := -5, plainBelow := 16 }

/-- The text of a number. -/
def text : Number → String
  | .int i => toString i
  | .float x => floatFormat.text x

/-- The smallest and the largest integer a document can hold. -/
def minInt : Int := -0x8000000000000000

@[inherit_doc minInt] def maxInt : Int := 0xFFFFFFFFFFFFFFFF

/-- The largest integer a signed word can hold. -/
def maxSigned : Int := 0x7FFFFFFFFFFFFFFF

/-- A floating point number, if it is finite. -/
def ofFloat? (x : Float) : Option Number :=
  if x.isFinite then some (.float x) else none

end Number

end Casebook
