/-!
# Shortest decimals

The fewest decimal digits that read back as a given binary floating point number. A finite
positive number is `significand * 2 ^ exponent`; the reals that round to it form an interval
around it, whose ends belong to it when the significand is even. The grids of one, two, three
and more significant digits are tried in turn: the first with a point in the interval wins, of
two such points the nearer, and of two equally near the even one.

All comparisons are between natural numbers, so nothing is rounded on the way.
-/

namespace Casebook.Decimal

/-- A finite positive binary number. -/
structure Binary where
  significand : Nat
  exponent : Int
  /-- Whether the next smaller number is only half as far away as the next larger one. -/
  narrowBelow : Bool

/-- A decimal number `digits * 10 ^ exponent`. -/
structure Scientific where
  digits : Nat
  exponent : Int
  deriving DecidableEq, Repr

namespace Binary

/-- The number with these bits of a double, apart from its sign. -/
def ofBits (bits : UInt64) : Binary :=
  let field := (bits >>> 52).toNat % 0x800
  let fraction := bits.toNat % 0x10000000000000
  if field = 0 then
    { significand := fraction, exponent := -1074, narrowBelow := false }
  else
    { significand := 0x10000000000000 + fraction, exponent := (field : Int) - 1075,
      narrowBelow := fraction = 0 && 1 < field }

/-- The number as a fraction: four times the number is the first part over the second. -/
def quadruple (b : Binary) : Nat × Nat :=
  if b.exponent < 0 then (4 * b.significand, Nat.pow 2 b.exponent.natAbs)
  else (4 * b.significand * Nat.pow 2 b.exponent.natAbs, 1)

/-- Half of the gap to the next larger number, scaled as in `quadruple`. -/
def gapAbove (b : Binary) : Nat :=
  if b.exponent < 0 then 2 else 2 * Nat.pow 2 b.exponent.natAbs

/-- Half of the gap to the next smaller number, scaled as in `quadruple`. -/
def gapBelow (b : Binary) : Nat :=
  if b.narrowBelow then b.gapAbove / 2 else b.gapAbove

end Binary

/-- The power of ten as a fraction. -/
def tenPower (e : Int) : Nat × Nat :=
  if e < 0 then (1, Nat.pow 10 e.natAbs) else (Nat.pow 10 e.natAbs, 1)

/-- Raise a guess of the decimal exponent of `num / den` until the next power of ten is larger. -/
def raiseExponent (num den : Nat) : Nat → Int → Int
  | 0, e => e
  | fuel + 1, e =>
    let (top, bottom) := tenPower (e + 1)
    if top * den ≤ num * bottom then raiseExponent num den fuel (e + 1) else e

/-- The exponent of the largest power of ten that is at most `num / den`. -/
def decimalExponent (num den : Nat) : Int :=
  let guess : Int := ((num.log2 : Int) - (den.log2 : Int)) * 30103 / 100000 - 2
  raiseExponent num den 5 guess

/-- The point of the grid of `10 ^ p` nearest to the number among those that round to it. -/
def onGrid? (b : Binary) (p : Int) : Option Scientific :=
  let (num, den) := b.quadruple
  let (top, bottom) := tenPower p
  -- one step of the grid, and the number and its gaps, over one denominator
  let unit := 4 * top * den
  let value := num * bottom
  let low := value - b.gapBelow * bottom
  let high := value + b.gapAbove * bottom
  let within (x : Nat) : Bool :=
    if b.significand % 2 = 0 then low ≤ x && x ≤ high else low < x && x < high
  let d := value / unit
  let below := d * unit
  let above := (d + 1) * unit
  match within below, within above with
  | false, false => none
  | true, false => some ⟨d, p⟩
  | false, true => some ⟨d + 1, p⟩
  | true, true =>
    if value - below < above - value then some ⟨d, p⟩
    else if above - value < value - below then some ⟨d + 1, p⟩
    else some ⟨if d % 2 = 0 then d else d + 1, p⟩

/-- The first grid with a hit, from `digits` significant digits on. -/
def firstGrid (b : Binary) (e : Int) : Nat → Nat → Scientific
  | 0, digits => ⟨b.significand, (digits : Int)⟩
  | fuel + 1, digits =>
    match onGrid? b (e - digits + 1) with
    | some s => s
    | none => firstGrid b e fuel (digits + 1)

/-- Drop trailing zeros of the digits. -/
def dropZeros : Nat → Scientific → Scientific
  | 0, s => s
  | fuel + 1, s =>
    if s.digits ≠ 0 ∧ s.digits % 10 = 0 then dropZeros fuel ⟨s.digits / 10, s.exponent + 1⟩ else s

/-- The shortest decimal that reads back as the number; seventeen digits always do. -/
def shortest (b : Binary) : Scientific :=
  let (num, den) := b.quadruple
  dropZeros 20 (firstGrid b (decimalExponent num (4 * den)) 17 1)

end Casebook.Decimal
