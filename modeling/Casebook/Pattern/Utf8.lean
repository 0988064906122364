import Casebook.Unicode.CharSet

/-!
# Sets as sequences of bytes

In the encoding UTF-8 a set of characters becomes sequences of up to four ranges of bytes. A range
of code points is cut where the number of bytes changes, and further until in each piece every
combination of the bytes of its ends, place by place, is a member.
-/

namespace Casebook.Pattern.Utf8

/-- The bytes of a code point. -/
def encode (n : Nat) : List Nat :=
  if n < 0x80 then [n]
  else if n < 0x800 then [0xC0 + n / 0x40, 0x80 + n % 0x40]
  else if n < 0x10000 then [0xE0 + n / 0x1000, 0x80 + n / 0x40 % 0x40, 0x80 + n % 0x40]
  else
    [0xF0 + n / 0x40000, 0x80 + n / 0x1000 % 0x40, 0x80 + n / 0x40 % 0x40, 0x80 + n % 0x40]

/-- The bytes of a text. -/
def encodeAll (s : List Char) : List Nat :=
  s.flatMap fun c => encode c.toNat

/-- A range cut in front of a code point. -/
def cutAt (n : Nat) (r : Nat × Nat) : List (Nat × Nat) :=
  if r.1 < n ∧ n ≤ r.2 then [(r.1, n - 1), (n, r.2)] else [r]

/-- Where a range has to be cut further: its ends differ in the places above some last ones, which
do not run through all their values. -/
def cutPoint? (r : Nat × Nat) : Option Nat :=
  [0x40, 0x1000, 0x40000].findSome? fun unit =>
    if r.1 / unit = r.2 / unit then none
    else if r.1 % unit ≠ 0 then some (r.1 / unit * unit + unit)
    else if r.2 % unit ≠ unit - 1 then some (r.2 / unit * unit)
    else none

/-- The pieces of a range whose code points have equally many bytes, cut up to so often. -/
def pieces : Nat → Nat × Nat → List (Nat × Nat)
  | 0, r => [r]
  | fuel + 1, r =>
    match if r.2 < 0x80 then none else cutPoint? r with
    | some n => pieces fuel (r.1, n - 1) ++ pieces fuel (n, r.2)
    | none => [r]

/-- How often a range may have to be cut: at both ends for each place but the first. -/
def maxCuts : Nat := 8

/-- The sequences of ranges of bytes of a set, in the order of the code points. -/
def sequences (s : Unicode.CharSet) : List (List (Nat × Nat)) :=
  s.ranges.flatMap fun r =>
    ((((cutAt 0x80 r).flatMap (cutAt 0x800)).flatMap (cutAt 0x10000)).flatMap (pieces maxCuts)).map
      fun r => (encode r.1).zip (encode r.2)

/-- Sequences that begin alike, with what they begin with and what follows it. -/
def byFirst {α : Type} [BEq α] (seqs : List (List α)) : List (α × List (List α)) :=
  (seqs.splitBy fun a b => a.head? == b.head?).filterMap fun block =>
    match block with
    | (first :: _) :: _ => some (first, block.map List.tail)
    | _ => none

end Casebook.Pattern.Utf8
