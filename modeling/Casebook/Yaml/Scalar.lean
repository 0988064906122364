import Casebook.Decimal.Reading
import Casebook.Yaml.Glyph

/-!
# Texts of YAML scalars

A scalar may run over several lines. A single line break inside it reads as a space and each
further break as itself; blanks around a break are dropped. Block scalars are taken line by line:
their indentation is cut off, and literal ones keep every break.
-/

namespace Casebook.Yaml.Scalar

/-! ## Blanks and breaks between words -/

/-- The blanks and breaks since the last word. -/
inductive Gap where
  /-- Blanks on one line, kept as they are. -/
  | blanks (s : List Char)
  /-- Line breaks: the first, if it counts, and the further ones. -/
  | broken (first : Option Char) (more : List Char)

namespace Gap

/-- Nothing since the last word. -/
def none : Gap := .blanks []

/-- Whether nothing was seen since the last word. -/
def isNone : Gap → Bool
  | blanks [] => true
  | _ => false

/-- Whether a line break was seen since the last word. -/
def isBroken : Gap → Bool
  | broken .. => true
  | _ => false

/-- Add a blank. -/
def addBlank (c : Char) : Gap → Gap
  | blanks s => .blanks (s ++ [c])
  | other => other

/-- Add a line break. -/
def addBreak (c : Char) : Gap → Gap
  | blanks _ => .broken (some c) []
  | broken first more => .broken first (more ++ [c])

/-- What a gap reads as. -/
def text : Gap → List Char
  | blanks s => s
  | broken (some '\n') [] => [' ']
  | broken (some '\n') more => more
  | broken (some c) more => c :: more
  | broken .none more => more

end Gap

/-! ## Plain scalars -/

/-- Whether a plain scalar ends in front of a text. -/
def endsPlain (inFlow : Bool) : List Glyph → Bool
  | [] => true
  | g :: rest =>
    (g.char = ':' && Glyph.atGap rest)
      || (inFlow && ",[]\x7b\x7d".toList.contains g.char)

/-- Whether a text starts with a colon that a plain scalar in a flow collection may not hold. -/
def startsStrayColon : List Glyph → Bool
  | g1 :: g2 :: _ => g1.char = ':' && ",?[]\x7b\x7d".toList.contains g2.char
  | _ => false

/-- The text of a plain scalar, whether a line break follows it, and the text behind that. In a
block, lines indented less than `indent` do not belong to it. -/
def plain (inFlow : Bool) (indent : Int) (gap : Gap) :
    List Glyph → Option (List Char × Bool × List Glyph)
  | [] => some ([], gap.isBroken, [])
  | g :: rest =>
    if g.isBreak then plain inFlow indent (gap.addBreak g.char) rest
    else if g.isBlank then
      if gap.isBroken && g.char = '\t' && (g.place.column : Int) < indent then none
      else plain inFlow indent (gap.addBlank g.char) rest
    else if gap.isBroken && !inFlow && (g.place.column : Int) < indent then
      some ([], true, g :: rest)
    else if Glyph.startsDocumentMarker (g :: rest) || (!gap.isNone && g.char = '#') then
      some ([], gap.isBroken, g :: rest)
    else if inFlow && startsStrayColon (g :: rest) then none
    else if endsPlain inFlow (g :: rest) then some ([], gap.isBroken, g :: rest)
    else (plain inFlow indent Gap.none rest).map fun r => (gap.text ++ g.char :: r.1, r.2)

/-! ## Quoted scalars -/

/-- A part of a quoted scalar. -/
inductive Part where
  | char (c : Char)
  | blank (c : Char)
  | lineBreak (c : Char)
  /-- A line break behind a backslash, which reads as nothing. -/
  | escapedBreak

/-- What the parts of a quoted scalar read as. -/
def fold (gap : Gap) : List Part → List Char
  | [] => gap.text
  | .char c :: rest => gap.text ++ c :: fold Gap.none rest
  | .blank c :: rest => fold (gap.addBlank c) rest
  | .lineBreak c :: rest => fold (gap.addBreak c) rest
  | .escapedBreak :: rest => gap.text ++ fold (.broken none []) rest

/-- A character outside an escape. -/
def partOf (g : Glyph) : Part :=
  if g.isBreak then .lineBreak g.char
  else if g.isBlank then .blank g.char
  else .char g.char

/-- The parts up to a single quote that is not doubled, and the text behind it. -/
def singleQuoted : List Glyph → Option (List Part × List Glyph)
  | [] => none
  | g :: rest =>
    if Glyph.startsDocumentMarker (g :: rest) then none
    else if g.char = '\'' then
      match rest with
      | g2 :: more =>
        if g2.char = '\'' then (singleQuoted more).map fun r => (.char '\'' :: r.1, r.2)
        else some ([], rest)
      | [] => some ([], [])
    else (singleQuoted rest).map fun r => (partOf g :: r.1, r.2)

/-- The character that a letter behind a backslash stands for. -/
def escaped? : Char → Option Char
  | '0' => some '\x00'
  | 'a' => some '\x07'
  | 'b' => some '\x08'
  | 't' | '\t' => some '\t'
  | 'n' => some '\n'
  | 'v' => some '\x0b'
  | 'f' => some '\x0c'
  | 'r' => some '\r'
  | 'e' => some '\x1b'
  | ' ' => some ' '
  | '"' => some '"'
  | '/' => some '/'
  | '\\' => some '\\'
  | 'N' => some '\x85'
  | '_' => some '\xa0'
  | 'L' => some '\u2028'
  | 'P' => some '\u2029'
  | _ => none

/-- How many digits of a code point follow a letter behind a backslash. -/
def codeLength? : Char → Option Nat
  | 'x' => some 2
  | 'u' => some 4
  | 'U' => some 8
  | _ => none

/-- The character of a code point written in hexadecimal digits. -/
def ofCode? (digits : List Char) : Option Char :=
  (Decimal.natOfDigitsBase 16 digits).bind fun n =>
    if h : n.isValidChar then some (Char.ofNatAux n h) else none

/-- The parts up to a double quote that is not escaped, and the text behind it. -/
def doubleQuoted (s : List Glyph) : Option (List Part × List Glyph) :=
  match s with
  | [] => none
  | g :: rest =>
    if Glyph.startsDocumentMarker (g :: rest) then none
    else if g.char = '"' then some ([], rest)
    else if g.char = '\\' then
      match rest with
      | [] => none
      | e :: more =>
        if e.isBreak then (doubleQuoted more).map fun r => (.escapedBreak :: r.1, r.2)
        else
          match codeLength? e.char with
          | some n =>
            if more.length < n then none
            else
              match ofCode? (Glyph.chars (more.take n)) with
              | some c => (doubleQuoted (more.drop n)).map fun r => (.char c :: r.1, r.2)
              | none => none
          | none =>
            match escaped? e.char with
            | some c => (doubleQuoted more).map fun r => (.char c :: r.1, r.2)
            | none => none
    else (doubleQuoted rest).map fun r => (partOf g :: r.1, r.2)
termination_by s.length
decreasing_by
  all_goals simp only [List.length_cons, List.length_drop] at *; omega

/-! ## Block scalars -/

/-- What becomes of the line breaks at the end of a block scalar. -/
inductive Chomping where
  | strip
  | clip
  | keep

/-- A line with the break at its end, if there is one. -/
structure Line where
  glyphs : List Glyph
  lineBreak : Option Glyph

/-- The lines of a text. -/
def lines : List Glyph → List Line
  | [] => []
  | g :: rest =>
    if g.isBreak then ⟨[], some g⟩ :: lines rest
    else
      match lines rest with
      | [] => [⟨[g], none⟩]
      | line :: more => { line with glyphs := g :: line.glyphs } :: more

/-- The text of lines. -/
def unlines (ls : List Line) : List Glyph :=
  ls.flatMap fun line => line.glyphs ++ line.lineBreak.toList

/-- The number of spaces that a line starts with. -/
def Line.indentation (line : Line) : Nat :=
  (line.glyphs.takeWhile fun g => g.char = ' ').length

/-- What a line is to a block scalar of some indentation. -/
inductive LineKind where
  | empty (lineBreak : Char)
  | content (s : List Char) (lineBreak : Option Char)
  /-- A line that the scalar ends in front of. -/
  | outside

/-- The kind of a line; none if a tab stands in its indentation. -/
def Line.kind? (indent : Nat) (line : Line) : Option LineKind :=
  let spaces := min indent line.indentation
  match line.glyphs.drop spaces, line.lineBreak with
  | [], some b => some (.empty b.char)
  | [], none => some .outside
  | g :: rest, lineBreak =>
    if spaces < indent then if g.char = '\t' then none else some .outside
    else some (.content (Glyph.chars (g :: rest)) (lineBreak.map Glyph.char))

/-- The indentation that a block scalar in a block of indentation `outer` has, from its leading
lines; none if a tab stands in it. -/
def detectIndent? (outer : Int) (widest : Nat) : List Line → Option Nat
  | [] => some (max widest (max (outer + 1).toNat 1))
  | line :: rest =>
    let widest := max widest line.indentation
    match line.glyphs.drop line.indentation, line.lineBreak with
    | [], some _ => detectIndent? outer widest rest
    | [], none => some (max widest (max (outer + 1).toNat 1))
    | g :: _, _ => if g.char = '\t' then none else some (max widest (max (outer + 1).toNat 1))

/-- The end of a block scalar: the break of its last line and the empty lines behind it. -/
def Chomping.tail (c : Chomping) (last : Option Char) (empty : List Char) : List Char :=
  match c with
  | .strip => []
  | .clip => last.toList
  | .keep => last.toList ++ empty

/-- The break between two lines of a block scalar; in a folded one a break between lines that
start with no blank reads as a space, or as nothing if empty lines follow it. -/
def joint (literal : Bool) (lastBreak : Option Char) (startsBlank : Bool) (empty : List Char)
    (s : List Char) : List Char :=
  let blank := match s with
    | c :: _ => c = ' ' || c = '\t'
    | [] => false
  if !literal && lastBreak = some '\n' && !startsBlank && !blank then
    if empty.isEmpty then [' '] else empty
  else lastBreak.toList ++ empty

/-- The text of a block scalar and the lines behind it. `lastBreak` is the break of the line
before and `startsBlank` whether that line starts with a blank; `empty` are the empty lines
since. -/
def block (literal : Bool) (chomping : Chomping) (indent : Nat) (lastBreak : Option Char)
    (startsBlank : Bool) (empty : List Char) : List Line → Option (List Char × List Line)
  | [] => some (chomping.tail lastBreak empty, [])
  | line :: rest =>
    match line.kind? indent with
    | none => none
    | some .outside => some (chomping.tail lastBreak empty, line :: rest)
    | some (.empty b) => block literal chomping indent lastBreak startsBlank (empty ++ [b]) rest
    | some (.content s lineBreak) =>
      let blank := match s with
        | c :: _ => c = ' ' || c = '\t'
        | [] => false
      (block literal chomping indent lineBreak blank [] rest).map fun r =>
        (joint literal lastBreak startsBlank empty s ++ s ++ r.1, r.2)

/-- The indentation and the chomping that the header of a block scalar asks for, and the text
behind them; none if it asks for an indentation of zero. -/
def header? (s : List Glyph) : Option (Nat × Chomping × List Glyph) :=
  match chomping? s with
  | some (c, rest) =>
    match digit? rest with
    | some (0, _) => none
    | some (n, more) => some (n, c, more)
    | none => some (0, c, rest)
  | none =>
    match digit? s with
    | some (0, _) => none
    | some (n, rest) =>
      match chomping? rest with
      | some (c, more) => some (n, c, more)
      | none => some (n, .clip, rest)
    | none => some (0, .clip, s)
where
  /-- A sign for the chomping. -/
  chomping? : List Glyph → Option (Chomping × List Glyph)
    | g :: rest =>
      if g.char = '+' then some (.keep, rest)
      else if g.char = '-' then some (.strip, rest)
      else none
    | [] => none
  /-- A digit. -/
  digit? : List Glyph → Option (Nat × List Glyph)
    | g :: rest => if g.char.isDigit then some (g.char.toNat - '0'.toNat, rest) else none
    | [] => none

/-- The text behind the line that the header of a block scalar stands on; nothing but a comment may
follow the header. -/
def behindHeader? (s : List Glyph) : Option (List Glyph) :=
  let s := s.dropWhile Glyph.isBlank
  let s := if Glyph.startsWith '#' s then s.dropWhile fun g => !g.isBreak else s
  match s with
  | [] => some []
  | g :: rest => if g.isBreak then some rest else none

/-- A block scalar, read behind its first character: its text and the text behind it. -/
def blockScalar (literal : Bool) (outer : Int) (s : List Glyph) :
    Option (List Char × List Glyph) := do
  let (increment, chomping, s) ← header? s
  let ls := lines (← behindHeader? s)
  let indent ←
    if increment = 0 then detectIndent? outer 0 ls
    else some (if 0 ≤ outer then outer.toNat + increment else increment)
  let (text, more) ← block literal chomping indent none false [] ls
  return (text, unlines more)

end Casebook.Yaml.Scalar
