/-!
# Reading decimals

A decimal `digits * 10 ^ exponent` is read as the nearest floating point number. Exponents far
outside the range are decided before any power of ten is formed.
-/

namespace Casebook.Decimal

/-- The value of a list of decimal digits. -/
def natOfDigits (ds : List Char) : Nat :=
  ds.foldl (fun n d => 10 * n + (d.toNat - '0'.toNat)) 0

/-- The value of a list of digits to a base up to sixteen, upper or lower case. -/
def natOfDigitsBase (base : Nat) (ds : List Char) : Option Nat :=
  ds.foldlM (fun n d =>
    let v :=
      if '0' ≤ d ∧ d ≤ '9' then some (d.toNat - '0'.toNat)
      else if 'a' ≤ d ∧ d ≤ 'f' then some (d.toNat - 'a'.toNat + 10)
      else if 'A' ≤ d ∧ d ≤ 'F' then some (d.toNat - 'A'.toNat + 10)
      else none
    v.bind fun v => if v < base then some (base * n + v) else none) 0

/-- The floating point number nearest to `digits * 10 ^ exponent`, infinite above the range. -/
def nearest (digits : Nat) (exponent : Int) : Float :=
  if digits = 0 then 0
  else
    let magnitude : Int := (toString digits).length + exponent
    if 310 < magnitude then 1 / 0
    else if magnitude < -330 then 0
    else Float.ofScientific digits (exponent < 0) exponent.natAbs

/-- Whether a character is one of the ten digits. -/
def isDigit (c : Char) : Bool :=
  '0' ≤ c && c ≤ '9'

/-- Split off an exponent: its mark, a sign and at least one digit. -/
def exponentPart? : List Char → Option Int
  | [] => some 0
  | mark :: rest =>
    if mark = 'e' ∨ mark = 'E' then
      let (negative, ds) :=
        match rest with
        | '-' :: ds => (true, ds)
        | '+' :: ds => (false, ds)
        | ds => (false, ds)
      if ds = [] ∨ !ds.all isDigit then none
      else some (if negative then -(natOfDigits ds : Int) else natOfDigits ds)
    else none

/-- An unsigned decimal: digits with at most one point among them, then perhaps an exponent. -/
def unsigned? (s : List Char) : Option Float :=
  let whole := s.takeWhile isDigit
  let rest := s.dropWhile isDigit
  let (fraction, rest) :=
    match rest with
    | '.' :: more => (more.takeWhile isDigit, more.dropWhile isDigit)
    | other => ([], other)
  if whole = [] ∧ fraction = [] then none
  else
    (exponentPart? rest).map fun e =>
      nearest (natOfDigits (whole ++ fraction)) (e - fraction.length)

/-- A decimal with an optional sign; the words for infinity and not-a-number are no decimals. -/
def float? : List Char → Option Float
  | '-' :: s => (unsigned? s).map fun x => -x
  | '+' :: s => unsigned? s
  | s => unsigned? s

/-- An integer: an optional sign and at least one digit. -/
def int? : List Char → Option Int
  | '-' :: s => if s = [] ∨ !s.all isDigit then none else some (-(natOfDigits s : Int))
  | '+' :: s => if s = [] ∨ !s.all isDigit then none else some (natOfDigits s)
  | s => if s = [] ∨ !s.all isDigit then none else some (natOfDigits s)

/-- A natural number: an optional plus sign and at least one digit. -/
def nat? : List Char → Option Nat
  | '+' :: s => if s = [] ∨ !s.all isDigit then none else some (natOfDigits s)
  | s => if s = [] ∨ !s.all isDigit then none else some (natOfDigits s)

end Casebook.Decimal
