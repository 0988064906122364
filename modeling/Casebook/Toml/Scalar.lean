import Casebook.Toml.Text
import Casebook.Value.Basic

/-!
# Numbers and times in TOML

Underscores may stand between the digits of a number. A date or a time is read as an object with a
single entry, whose text is its standard form.
-/

namespace Casebook.Toml

open Decimal (isDigit)

/-- Digits of some kind with underscores between them, and the rest; the underscores are left out.
Nothing is read if there is no digit in front. -/
def digits (isDigit : Char → Bool) (s : List Char) : List Char × List Char :=
  match s with
  | [] => ([], [])
  | '_' :: rest => ([], '_' :: rest)
  | c :: rest => if isDigit c then more [c] rest else ([], c :: rest)
where
  /-- Further digits. -/
  more (done : List Char) : List Char → List Char × List Char
    | '_' :: c :: rest =>
      if isDigit c then more (done ++ [c]) rest else (done, '_' :: c :: rest)
    | c :: rest => if isDigit c then more (done ++ [c]) rest else (done, c :: rest)
    | [] => (done, [])

/-- A sign in front, and the text behind it. -/
def sign (s : List Char) : List Char × List Char :=
  match s with
  | '-' :: rest => (['-'], rest)
  | '+' :: rest => (['+'], rest)
  | other => ([], other)

/-- A decimal integer with its sign; no digit may follow a leading zero. -/
def decimalInteger? (s : List Char) : Option (List Char × List Char) :=
  let (mark, rest) := sign s
  match rest with
  | '0' :: more => some (mark ++ ['0'], more)
  | _ =>
    match digits isDigit rest with
    | ([], _) => none
    | (ds, more) => some (mark ++ ds, more)

/-- An integer as a value; none if it does not fit 64 bits. -/
def ofInt? (i : Int) : Option Value :=
  if Number.minInt ≤ i ∧ i ≤ Number.maxSigned then some (.int i) else none

/-- An integer to some base behind its mark. -/
def basedInteger? (base : Nat) (s : List Char) : Option (Value × List Char) := do
  let isDigitOfBase c := (Decimal.natOfDigitsBase base [c]).isSome
  let (ds, rest) := digits isDigitOfBase s
  if ds.isEmpty then none
  let n ← Decimal.natOfDigitsBase base ds
  return (← ofInt? n, rest)

/-- An integer. -/
def integer? (s : List Char) : Option (Value × List Char) :=
  match s with
  | '0' :: 'x' :: rest => basedInteger? 16 rest
  | '0' :: 'o' :: rest => basedInteger? 8 rest
  | '0' :: 'b' :: rest => basedInteger? 2 rest
  | other => do
    let (ds, rest) ← decimalInteger? other
    return (← ofInt? (← Decimal.int? ds), rest)

/-- An exponent, if there is one in front. -/
def exponent? (s : List Char) : Option (List Char × List Char) :=
  match s with
  | c :: rest =>
    if c = 'e' ∨ c = 'E' then
      let (mark, rest) := sign rest
      match digits isDigit rest with
      | ([], _) => none
      | (ds, rest) => some ('e' :: mark ++ ds, rest)
    else some ([], s)
  | [] => some ([], [])

/-- The text of a floating point number: an integer with a fraction, an exponent or both. -/
def floatText? (s : List Char) : Option (List Char × List Char) := do
  let (whole, rest) ← decimalInteger? s
  match rest with
  | '.' :: more =>
    match digits isDigit more with
    | ([], _) => none
    | (fraction, rest) =>
      let (e, rest) ← exponent? rest
      return (whole ++ '.' :: fraction ++ e, rest)
  | _ =>
    let (e, rest) ← exponent? rest
    if e.isEmpty then none else return (whole ++ e, rest)

/-- Infinity and not-a-number, which no value stands for. -/
def special? (s : List Char) : Option (Value × List Char) :=
  match (sign s).2 with
  | 'i' :: 'n' :: 'f' :: rest => some (.null, rest)
  | 'n' :: 'a' :: 'n' :: rest => some (.null, rest)
  | _ => none

/-- A floating point number; one above the range is refused, one below it stands for nothing. -/
def float? (s : List Char) : Option (Value × List Char) :=
  match floatText? s with
  | some (text, rest) => do
    let x ← Decimal.float? text
    if x.isFinite then return (.number (.float x), rest)
    else if x < 0 then return (.null, rest)
    else none
  | none => special? s

/-! ## Dates and times -/

/-- A number of exactly so many digits, between two bounds. -/
def fixed? (n low high : Nat) (s : List Char) : Option (Nat × List Char) :=
  let ds := s.take n
  let v := Decimal.natOfDigits ds
  if ds.length = n ∧ ds.all isDigit ∧ low ≤ v ∧ v ≤ high then some (v, s.drop n) else none

/-- A character that has to come next. -/
def expect? (c : Char) (s : List Char) : Option (List Char) :=
  match s with
  | x :: rest => if x = c then some rest else none
  | [] => none

/-- A number with zeros in front, in so many digits. -/
def padded (n v : Nat) : String :=
  let ds := (toString v).toList
  String.ofList (List.replicate (n - ds.length) '0' ++ ds)

/-- Whether a year has a leap day. -/
def isLeapYear (year : Nat) : Bool :=
  year % 4 = 0 && (year % 100 ≠ 0 || year % 400 = 0)

/-- The number of days of a month. -/
def daysOf (year month : Nat) : Nat :=
  if month = 2 then if isLeapYear year then 29 else 28
  else if month = 4 ∨ month = 6 ∨ month = 9 ∨ month = 11 then 30
  else 31

/-- A date. -/
def date? (s : List Char) : Option (String × List Char) := do
  let (year, s) ← fixed? 4 0 9999 s
  let (month, s) ← fixed? 2 1 12 (← expect? '-' s)
  let (day, s) ← fixed? 2 1 31 (← expect? '-' s)
  if daysOf year month < day then none
  return (s!"{padded 4 year}-{padded 2 month}-{padded 2 day}", s)

/-- The fraction of a second, nine digits at most. -/
def fraction? (s : List Char) : Option (String × List Char) :=
  match s with
  | '.' :: rest =>
    let ds := rest.takeWhile isDigit
    if ds.isEmpty then none
    else
      let kept := ((ds.take 9).reverse.dropWhile (· = '0')).reverse
      some (if kept.isEmpty then "" else "." ++ String.ofList kept, rest.drop ds.length)
  | _ => some ("", s)

/-- A time of day. -/
def time? (s : List Char) : Option (String × List Char) := do
  let (hour, s) ← fixed? 2 0 23 s
  let (minute, s) ← fixed? 2 0 59 (← expect? ':' s)
  let (second, s) ← fixed? 2 0 60 (← expect? ':' s)
  let (fraction, s) ← fraction? s
  return (s!"{padded 2 hour}:{padded 2 minute}:{padded 2 second}{fraction}", s)

/-- The distance from universal time, if it is given. -/
def offset? (s : List Char) : Option (String × List Char) :=
  match s with
  | 'Z' :: rest | 'z' :: rest => some ("Z", rest)
  | c :: rest =>
    if c = '+' ∨ c = '-' then do
      let (hours, rest) ← fixed? 2 0 23 rest
      let (minutes, rest) ← fixed? 2 0 59 (← expect? ':' rest)
      let c := if hours + minutes = 0 then '+' else c
      return (s!"{c}{padded 2 hours}:{padded 2 minutes}", rest)
    else some ("", s)
  | [] => some ("", [])

/-- The time behind a date and its separator, if there is one. -/
def timeBehind? (s : List Char) : Option (String × List Char) :=
  match s with
  | c :: rest =>
    if c = 'T' ∨ c = 't' ∨ (c = ' ' ∧ (rest.take 1).any isDigit) then do
      let (time, rest) ← time? rest
      let (offset, rest) ← offset? rest
      return ("T" ++ time ++ offset, rest)
    else some ("", s)
  | [] => some ("", [])

/-- A date, a time or both. -/
def moment? (s : List Char) : Option (Value × List Char) :=
  match date? s with
  | some (date, rest) => (timeBehind? rest).map fun (time, rest) => (entry (date ++ time), rest)
  | none => (time? s).map fun (time, rest) => (entry time, rest)
where
  /-- The object that stands for a date or a time. -/
  entry (text : String) : Value :=
    .object [("$__toml_private_datetime", .string text)]

/-- Whether a text starts like a date or a time. -/
def startsMoment (s : List Char) : Bool :=
  let n := (s.takeWhile isDigit).length
  (n = 4 && s[4]? = some '-') || (n = 2 && s[2]? = some ':')

end Casebook.Toml
