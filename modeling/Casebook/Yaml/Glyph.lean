/-!
# Characters with their places

Layout carries meaning in a YAML text, so it is cut into characters that know where they stand.
Every line break is one of them: the break characters of one byte or two, and the next-line
character, all read as a line feed, while the line and paragraph separators stand for themselves.
-/

namespace Casebook.Yaml

/-- A place in a text, counted from zero: the bytes in front of it, and its line and column. -/
structure Place where
  index : Nat
  line : Nat
  column : Nat
  deriving Inhabited

/-- A character and its place. -/
structure Glyph where
  char : Char
  place : Place
  deriving Inhabited

namespace Glyph

/-- Whether a text may hold a character. -/
def isAllowed (c : Char) : Bool :=
  let n := c.toNat
  n = 0x09 || n = 0x0A || n = 0x0D || (0x20 ≤ n && n ≤ 0x7E) || n = 0x85
    || (0xA0 ≤ n && n ≤ 0xFFFD) || 0x10000 ≤ n

/-- The place behind a character that is no break. -/
def nextColumn (p : Place) (c : Char) : Place :=
  ⟨p.index + c.utf8Size, p.line, p.column + 1⟩

/-- The place behind a break of so many bytes. -/
def nextLine (p : Place) (width : Nat) : Place :=
  ⟨p.index + width, p.line + 1, 0⟩

/-- The characters of a text from a place on, and the place at the end. -/
def ofChars (p : Place) : List Char → List Glyph × Place
  | [] => ([], p)
  | '\r' :: '\n' :: rest => push '\n' p (ofChars (nextLine p 2) rest)
  | c :: rest =>
    if c = '\r' ∨ c = '\n' ∨ c = '\x85' then push '\n' p (ofChars (nextLine p c.utf8Size) rest)
    else if c = '\u2028' ∨ c = '\u2029' then push c p (ofChars (nextLine p c.utf8Size) rest)
    else push c p (ofChars (nextColumn p c) rest)
where
  /-- Put a character in front of others. -/
  push (c : Char) (p : Place) (more : List Glyph × Place) : List Glyph × Place :=
    (⟨c, p⟩ :: more.1, more.2)

/-- The characters of a text; none if it holds a character that is not allowed. A byte order mark in
front is left out, but takes up the first column. -/
def ofText? (s : List Char) : Option (List Glyph × Place) :=
  let start : Place := ⟨0, 0, 0⟩
  if !s.all isAllowed then none
  else
    match s with
    | '\uFEFF' :: rest => some (ofChars (nextColumn start '\uFEFF') rest)
    | s => some (ofChars start s)

/-- Whether it is a line break. -/
def isBreak (g : Glyph) : Bool :=
  g.char = '\n' || g.char = '\u2028' || g.char = '\u2029'

/-- Whether it is a space or a tab. -/
def isBlank (g : Glyph) : Bool :=
  g.char = ' ' || g.char = '\t'

/-- Whether it is a letter, a digit, an underscore or a hyphen, of ASCII only. -/
def isNameChar (g : Glyph) : Bool :=
  g.char.isAlphanum || g.char = '_' || g.char = '-'

/-- Whether a text starts with a blank or a break or is at its end. -/
def atGap : List Glyph → Bool
  | [] => true
  | g :: _ => g.isBlank || g.isBreak

/-- Whether a text starts with a character. -/
def startsWith (c : Char) : List Glyph → Bool
  | [] => false
  | g :: _ => g.char = c

/-- Whether a text starts with three of one character and a gap, at the beginning of a line. -/
def startsMarker (c : Char) : List Glyph → Bool
  | g1 :: g2 :: g3 :: rest =>
    g1.place.column = 0 && g1.char = c && g2.char = c && g3.char = c && atGap rest
  | _ => false

/-- Whether a text starts with what opens or closes a document. -/
def startsDocumentMarker (s : List Glyph) : Bool :=
  startsMarker '-' s || startsMarker '.' s

/-- The characters alone. -/
def chars (s : List Glyph) : List Char :=
  s.map Glyph.char

/-- The characters as a string. -/
def text (s : List Glyph) : String :=
  String.ofList (chars s)

end Glyph

end Casebook.Yaml
