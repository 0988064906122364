import Casebook.Value.Basic
import Casebook.Decimal.Reading

/-!
# Reading JSON

A text is one value with blanks around it. Of two entries of an object with one key the later
stays. Integers outside the range of a document are read as floating point numbers, and a
number too large for those is refused, as is nesting deeper than `maxNesting`.

The reader says only whether a text is JSON, not where it stops being it.
-/

namespace Casebook.Json

/-- The characters that may stand between the parts of a text. -/
def isSpace (c : Char) : Bool :=
  c = ' ' || c = '\n' || c = '\t' || c = '\r'

/-- How many lists and objects may be open at once. -/
def maxNesting : Nat := 127

/-! ## Numbers -/

/-- The largest power of ten that a floating point number holds. -/
def maxPower : Nat := 308

/-- A significand scaled by a power of ten, with one rounding for the significand and one for each
scaling; none if the number is too large. Powers below the smallest are applied in two parts. -/
def scaled? (significand : Nat) (exponent : Int) : Option Float :=
  let x := Float.ofNat significand
  if 0 ≤ exponent then
    if significand = 0 then some x
    else if maxPower < exponent.natAbs then none
    else
      let y := x * Decimal.nearest 1 exponent
      if y.isInf then none else some y
  else
    let e := exponent.natAbs
    if e ≤ maxPower then some (x / Decimal.nearest 1 e)
    else if e ≤ 2 * maxPower then
      some (x / Decimal.nearest 1 maxPower / Decimal.nearest 1 (e - maxPower : Nat))
    else some 0

/-- Take digits into a significand as long as it fits a word of 64 bits; the digits left over. -/
def takeDigits : Nat → List Char → Nat × List Char
  | significand, [] => (significand, [])
  | significand, d :: ds =>
    let next := 10 * significand + Decimal.natOfDigits [d]
    if next ≤ Number.maxInt.toNat then takeDigits next ds else (significand, d :: ds)

/-- A number in front of a text, and what follows it. -/
def number? (s : List Char) : Option (Number × List Char) := do
  let (negative, s) :=
    match s with
    | '-' :: rest => (true, rest)
    | rest => (false, rest)
  let whole := s.takeWhile Decimal.isDigit
  let rest := s.dropWhile Decimal.isDigit
  if whole = [] ∨ (1 < whole.length ∧ whole.head? = some '0') then none
  let (significand, dropped) := takeDigits 0 whole
  let signed (x : Float) : Number := .float (if negative then -x else x)
  let (fraction, rest) ←
    match rest with
    | '.' :: more =>
      let fraction := more.takeWhile Decimal.isDigit
      if fraction = [] then none else some (fraction, more.dropWhile Decimal.isDigit)
    | other => some ([], other)
  let (significand, unused) := takeDigits significand fraction
  let shift : Int := (dropped.length : Int) - (fraction.length - unused.length : Nat)
  match rest with
  | mark :: more =>
    if mark = 'e' ∨ mark = 'E' then
      let signs := more.takeWhile fun c => c = '+' || c = '-'
      let digits := (more.drop signs.length).takeWhile Decimal.isDigit
      if 1 < signs.length ∨ digits = [] then none
      let e : Int := Decimal.natOfDigits digits
      let e := if signs = ['-'] then -e else e
      let x ← scaled? significand (shift + e)
      return (signed x, more.drop (signs.length + digits.length))
    else finish negative signed significand dropped fraction shift rest
  | [] => finish negative signed significand dropped fraction shift rest
where
  /-- A number without an exponent; it is an integer if it has no fraction and fits. -/
  finish (negative : Bool) (signed : Float → Number) (significand : Nat)
      (dropped fraction : List Char) (shift : Int) (rest : List Char) :
      Option (Number × List Char) :=
    if dropped = [] ∧ fraction = [] then
      if !negative then some (.int significand, rest)
      else if significand = 0 ∨ Number.minInt.natAbs < significand then
        some (signed (Float.ofNat significand), rest)
      else some (.int (-significand), rest)
    else (scaled? significand shift).map fun x => (signed x, rest)

/-! ## Strings -/

/-- The value of four hexadecimal digits in front of a text. -/
def fourHex? (s : List Char) : Option (Nat × List Char) :=
  if s.length < 4 then none
  else (Decimal.natOfDigitsBase 16 (s.take 4)).map fun n => (n, s.drop 4)

/-- The character that a unit behind `\u` stands for; a leading surrogate needs its trailing one. -/
def unicodeEscape? (s : List Char) : Option (Char × List Char) := do
  let (high, s) ← fourHex? s
  if 0xDC00 ≤ high ∧ high ≤ 0xDFFF then none
  else if 0xD800 ≤ high ∧ high ≤ 0xDBFF then
    match s with
    | '\\' :: 'u' :: s =>
      let (low, s) ← fourHex? s
      if 0xDC00 ≤ low ∧ low ≤ 0xDFFF then
        return (Char.ofNat (0x10000 + (high - 0xD800) * 0x400 + (low - 0xDC00)), s)
      else none
    | _ => none
  else return (Char.ofNat high, s)

/-- The character that an escape stands for, read behind the backslash. -/
def escape? : List Char → Option (Char × List Char)
  | '"' :: s => some ('"', s)
  | '\\' :: s => some ('\\', s)
  | '/' :: s => some ('/', s)
  | 'b' :: s => some ('\x08', s)
  | 'f' :: s => some ('\x0c', s)
  | 'n' :: s => some ('\n', s)
  | 'r' :: s => some ('\r', s)
  | 't' :: s => some ('\t', s)
  | 'u' :: s => unicodeEscape? s
  | _ => none

/-- A string, read behind its opening quotation mark. -/
def string? : Nat → List Char → List Char → Option (String × List Char)
  | 0, _, _ => none
  | _, _, [] => none
  | fuel + 1, done, c :: rest =>
    if c = '"' then some (String.ofList done.reverse, rest)
    else if c = '\\' then do
      let (x, rest) ← escape? rest
      string? fuel (x :: done) rest
    else if c.toNat < 0x20 then none
    else string? fuel (c :: done) rest

/-! ## Values -/

/-- The text behind a word, if it starts with it. -/
def literal? (word : String) (s : List Char) : Option (List Char) :=
  if word.toList.isPrefixOf s then some (s.drop word.length) else none

/-- The text without leading spaces. -/
def skipSpaces (s : List Char) : List Char :=
  s.dropWhile isSpace

mutual

/-- A value in front of a text, and what follows it. -/
def value? : (fuel room : Nat) → List Char → Option (Value × List Char)
  | 0, _, _ => none
  | fuel + 1, room, s =>
    match skipSpaces s with
    | 'n' :: rest => (literal? "ull" rest).map fun r => (.null, r)
    | 't' :: rest => (literal? "rue" rest).map fun r => (.bool true, r)
    | 'f' :: rest => (literal? "alse" rest).map fun r => (.bool false, r)
    | '"' :: rest => do
      let (text, r) ← string? fuel [] rest
      return (.string text, r)
    | '[' :: rest =>
      if room = 0 then none
      else
        match skipSpaces rest with
        | ']' :: r => some (.array [], r)
        | r => do
          let (items, r) ← items? fuel (room - 1) r
          return (.array items, r)
    | '\x7b' :: rest =>
      if room = 0 then none
      else
        match skipSpaces rest with
        | '\x7d' :: r => some (.object [], r)
        | r => do
          let (entries, r) ← entries? fuel (room - 1) [] r
          return (.object entries, r)
    | r => do
      let (n, r) ← number? r
      return (.number n, r)

/-- The items of a list that is not empty, up to its closing bracket. -/
def items? : (fuel room : Nat) → List Char → Option (List Value × List Char)
  | 0, _, _ => none
  | fuel + 1, room, s => do
    let (item, r) ← value? fuel room s
    match skipSpaces r with
    | ']' :: r => return ([item], r)
    | ',' :: r =>
      let (items, r) ← items? fuel room r
      return (item :: items, r)
    | _ => none

/-- The entries of an object that is not empty, up to its closing brace, on top of those done. -/
def entries? : (fuel room : Nat) → Dict Value → List Char → Option (Dict Value × List Char)
  | 0, _, _, _ => none
  | fuel + 1, room, done, s =>
    match skipSpaces s with
    | '"' :: r => do
      let (key, r) ← string? fuel [] r
      match skipSpaces r with
      | ':' :: r =>
        let (item, r) ← value? fuel room r
        match skipSpaces r with
        | '\x7d' :: r => return (done.insert key item, r)
        | ',' :: r => entries? fuel room (done.insert key item) r
        | _ => none
      | _ => none
    | _ => none

end

/-- The value a text is, if it is JSON. -/
def parse? (text : String) : Option Value := do
  let s := text.toList
  let (v, rest) ← value? (2 * s.length + 2) maxNesting s
  if skipSpaces rest = [] then some v else none

end Casebook.Json
