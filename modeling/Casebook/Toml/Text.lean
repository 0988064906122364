import Casebook.Decimal.Reading
import Casebook.Text.Split

/-!
# Texts in TOML

Keys and strings. Each reader gives what it read from the front of a text, and the rest. A basic
string has escapes, a literal string has none; between three quotes a string runs over several
lines, and a line break right behind the opening is left out.
-/

namespace Casebook.Toml

/-- Whether a character is a space or a tab. -/
def isBlank (c : Char) : Bool :=
  c = ' ' || c = '\t'

/-- The text without the blanks in front. -/
def skipBlanks (s : List Char) : List Char :=
  s.dropWhile isBlank

/-- Whether a character may stand in a comment or a string. -/
def isPlain (c : Char) : Bool :=
  c = '\t' || (0x20 ≤ c.toNat && c.toNat ≠ 0x7F)

/-- The text behind a line break, if there is one in front. -/
def lineBreak? : List Char → Option (List Char)
  | '\n' :: rest => some rest
  | '\r' :: '\n' :: rest => some rest
  | _ => none

/-- The text behind the comment in front, if there is one. -/
def skipComment (s : List Char) : List Char :=
  match s with
  | '#' :: rest => rest.dropWhile isPlain
  | other => other

/-! ## Strings -/

/-- The character of an escape, behind its backslash. -/
def escape? (s : List Char) : Option (Char × List Char) :=
  match s with
  | 'b' :: rest => some ('\x08', rest)
  | 't' :: rest => some ('\t', rest)
  | 'n' :: rest => some ('\n', rest)
  | 'f' :: rest => some ('\x0c', rest)
  | 'r' :: rest => some ('\r', rest)
  | '"' :: rest => some ('"', rest)
  | '\\' :: rest => some ('\\', rest)
  | 'u' :: rest => code? 4 rest
  | 'U' :: rest => code? 8 rest
  | _ => none
where
  /-- The character of a code point written in so many hexadecimal digits. -/
  code? (n : Nat) (s : List Char) : Option (Char × List Char) :=
    if s.length < n then none
    else
      (Decimal.natOfDigitsBase 16 (s.take n)).bind fun code =>
        if h : code.isValidChar then some (Char.ofNatAux code h, s.drop n) else none

/-- A basic string on one line, behind its opening quote, where at most so many characters are
left. -/
def basic : Nat → List Char → Option (List Char × List Char)
  | 0, _ => none
  | _, [] => none
  | n + 1, c :: rest =>
    if c = '"' then some ([], rest)
    else if c = '\\' then do
      let (x, rest) ← escape? rest
      let (s, rest) ← basic n rest
      return (x :: s, rest)
    else if isPlain c then (basic n rest).map fun r => (c :: r.1, r.2)
    else none

/-- A literal string on one line, behind its opening quote. -/
def literal : List Char → Option (List Char × List Char)
  | [] => none
  | c :: rest =>
    if c = '\'' then some ([], rest)
    else if isPlain c then (literal rest).map fun r => (c :: r.1, r.2)
    else none

/-- What a run of quotes in a string between three quotes means: quotes that belong to the string,
and the end if there are three behind them. -/
def quoteRun (q : Char) (s : List Char) : Option (List Char × Bool × List Char) :=
  let run := s.takeWhile (· = q)
  let rest := s.drop run.length
  if run.length < 3 then some (run, false, rest)
  else if run.length ≤ 5 then some (run.drop 3, true, rest)
  else some (run.take 2, true, s.drop 5)

/-- The text behind blanks and line breaks, where at most so many characters are left. -/
def skipLines : Nat → List Char → List Char
  | 0, s => s
  | n + 1, s =>
    match lineBreak? (skipBlanks s) with
    | some rest => skipLines n rest
    | none => skipBlanks s

/-- A string between three quotes, behind the opening, where at most so many characters are left. -/
def multiline (q : Char) : Nat → List Char → Option (List Char × List Char)
  | 0, _ => none
  | _, [] => none
  | n + 1, c :: rest =>
    if c = q then do
      let (kept, ended, rest) ← quoteRun q (c :: rest)
      if ended then return (kept, rest)
      let (s, rest) ← multiline q n rest
      return (kept ++ s, rest)
    else if c = '\\' && q = '"' then
      match lineBreak? (skipBlanks rest) with
      | some more => multiline q n (skipLines more.length more)
      | none => do
        let (x, rest) ← escape? rest
        let (s, rest) ← multiline q n rest
        return (x :: s, rest)
    else
      match lineBreak? (c :: rest) with
      | some more => (multiline q n more).map fun r => ('\n' :: r.1, r.2)
      | none =>
        if isPlain c then (multiline q n rest).map fun r => (c :: r.1, r.2)
        else none

/-- A string of any kind. -/
def string? (s : List Char) : Option (String × List Char) :=
  let read : Option (List Char × List Char) :=
    match s with
    | '"' :: '"' :: '"' :: rest => multiline '"' (s.length + 1) ((lineBreak? rest).getD rest)
    | '\'' :: '\'' :: '\'' :: rest => multiline '\'' (s.length + 1) ((lineBreak? rest).getD rest)
    | '"' :: rest => basic (s.length + 1) rest
    | '\'' :: rest => literal rest
    | _ => none
  read.map fun r => (String.ofList r.1, r.2)

/-! ## Keys -/

/-- Whether a character may stand in a key without quotes. -/
def isKeyChar (c : Char) : Bool :=
  c.isAlphanum || c = '_' || c = '-'

/-- A key without dots. -/
def simpleKey? (s : List Char) : Option (String × List Char) :=
  match s with
  | '"' :: rest => (basic (s.length + 1) rest).map fun r => (String.ofList r.1, r.2)
  | '\'' :: rest => (literal rest).map fun r => (String.ofList r.1, r.2)
  | _ =>
    let key := s.takeWhile isKeyChar
    if key.isEmpty then none else some (String.ofList key, s.drop key.length)

/-- A key of at most so many parts with dots between them, between blanks. -/
def key? : Nat → List Char → Option (List String × List Char)
  | 0, _ => none
  | n + 1, s => do
    let (part, rest) ← simpleKey? (skipBlanks s)
    match skipBlanks rest with
    | '.' :: more =>
      let (parts, rest) ← key? n more
      return (part :: parts, rest)
    | rest => return ([part], rest)

end Casebook.Toml
