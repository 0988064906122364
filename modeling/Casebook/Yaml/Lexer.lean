import Casebook.Yaml.Scalar
import Casebook.Yaml.Token

/-!
# Cutting a YAML text into tokens

Indentation opens and closes collections, and any node on one line may turn out to be a key once a
colon follows it. So each node that may become a key is preceded by a slot; when the colon is met,
the slot is filled with the tokens that belong in front of the key. A slot stays open for one line
and 1024 bytes.
-/

namespace Casebook.Yaml

/-- A token, or a place where the tokens in front of a key may be needed. -/
inductive Cell where
  | token (t : Token)
  | slot (number : Nat)
  deriving Inhabited

/-- A node that becomes a key if a colon follows. -/
structure KeyCandidate where
  /-- The slot in front of the node. -/
  slot : Nat
  /-- Whether the layout asks for a key here. -/
  required : Bool
  place : Place

/-- How far a text has been cut. -/
structure Lexer where
  rest : List Glyph
  /-- The place at the end of the text. -/
  finish : Place
  /-- What was cut so far, the latest first. -/
  cells : List Cell
  /-- The number of slots. -/
  slots : Nat
  /-- The indentation of the innermost block, -1 outside all blocks. -/
  indent : Int
  /-- The indentations of the blocks around it. -/
  outer : List Int
  /-- The candidate of each open flow collection, and last that of the block. -/
  candidates : List (Option KeyCandidate)
  /-- Whether a key may start here. -/
  keyAllowed : Bool

namespace Lexer

/-- The most bytes of a key that needs no mark. -/
def longestKey : Nat := 1024

/-- The lexer at the beginning of a text. -/
def start (s : List Glyph) (finish : Place) : Lexer :=
  { rest := s, finish, cells := [], slots := 0, indent := -1, outer := [], candidates := [none],
    keyAllowed := true }

/-- Whether a flow collection is open. -/
def inFlow (l : Lexer) : Bool :=
  1 < l.candidates.length

/-- The place of the text that is left. -/
def place (l : Lexer) : Place :=
  match l.rest with
  | [] => l.finish
  | g :: _ => g.place

/-- The column of the text that is left. -/
def column (l : Lexer) : Int :=
  l.place.column

/-- Add a token. -/
def emit (l : Lexer) (t : Token) : Lexer :=
  { l with cells := .token t :: l.cells }

/-- Pass over so many characters. -/
def skip (l : Lexer) (n : Nat) : Lexer :=
  { l with rest := l.rest.drop n }

/-! ## Blanks and comments -/

/-- The text behind blanks, breaks and comments, and whether a key may start there. Tabs are blanks
only where no key may start. -/
def skipGap (inFlow inComment keyAllowed : Bool) : List Glyph → List Glyph × Bool
  | [] => ([], keyAllowed)
  | g :: rest =>
    if g.isBreak then skipGap inFlow false (keyAllowed || !inFlow) rest
    else if inComment then skipGap inFlow true keyAllowed rest
    else if g.char = ' ' || ((inFlow || !keyAllowed) && g.char = '\t') then
      skipGap inFlow false keyAllowed rest
    else if g.char = '#' then skipGap inFlow true keyAllowed rest
    else (g :: rest, keyAllowed)

/-- Pass over blanks, breaks and comments. -/
def toNextToken (l : Lexer) : Lexer :=
  let (rest, keyAllowed) := skipGap l.inFlow false l.keyAllowed l.rest
  { l with rest, keyAllowed }

/-! ## Keys -/

/-- Whether a candidate has been left behind. -/
def isStale (here : Place) (c : KeyCandidate) : Bool :=
  c.place.line < here.line || c.place.index + longestKey < here.index

/-- Give up the candidates that were left behind; none if one of them had to be a key. -/
def dropStale (l : Lexer) : Option Lexer :=
  let here := l.place
  if l.candidates.any fun c => c.any fun k => isStale here k && k.required then none
  else some { l with candidates := l.candidates.map fun c => c.filter fun k => !isStale here k }

/-- Give up the candidate of the innermost collection; none if it had to be a key. -/
def dropCandidate (l : Lexer) : Option Lexer :=
  match l.candidates with
  | [] => some l
  | c :: outer => if c.any (·.required) then none else some { l with candidates := none :: outer }

/-- Note that the node that starts here may become a key. -/
def saveCandidate (l : Lexer) : Option Lexer := do
  if !l.keyAllowed then return l
  let required := !l.inFlow && l.indent = l.column
  let l ← l.dropCandidate
  return { l with
    candidates := some ⟨l.slots, required, l.place⟩ :: l.candidates.drop 1
    cells := .slot l.slots :: l.cells
    slots := l.slots + 1 }

/-- Fill a slot with tokens, the latest first. -/
def fillSlot (number : Nat) (tokens : List Token) : List Cell → List Cell
  | [] => []
  | .slot n :: rest =>
    if n = number then tokens.map Cell.token ++ rest else .slot n :: fillSlot number tokens rest
  | c :: rest => c :: fillSlot number tokens rest

/-! ## Indentation -/

/-- Leave the blocks that are indented more than a column. -/
def unindent (l : Lexer) (column : Int) : Lexer :=
  if l.inFlow then l
  else
    let closed := (l.indent :: l.outer).takeWhile fun i => column < i
    match (l.indent :: l.outer).dropWhile fun i => column < i with
    | [] => l
    | i :: outer =>
      { l with
        indent := i
        outer
        cells := closed.map (fun _ => .token .blockEnd) ++ l.cells }

/-- Whether a block starts at a column. -/
def opensBlock (l : Lexer) (column : Int) : Bool :=
  !l.inFlow && l.indent < column

/-- Enter a block at a column. -/
def enterBlock (l : Lexer) (column : Int) : Lexer :=
  { l with indent := column, outer := l.indent :: l.outer }

/-- Enter a block here, if it starts one, with the token that opens it. -/
def openBlock (l : Lexer) (t : Token) : Lexer :=
  if l.opensBlock l.column then (l.enterBlock l.column).emit t else l

/-! ## Directives, anchors and tags -/

/-- Pass over blanks and a comment up to and including the end of the line. -/
def endOfLine? (s : List Glyph) : Option (List Glyph) :=
  Scalar.behindHeader? s

/-- A number of at most nine digits. -/
def versionNumber? (s : List Glyph) : Option (Nat × List Glyph) :=
  let digits := s.takeWhile fun g => g.char.isDigit
  if digits.isEmpty ∨ 9 < digits.length then none
  else some (Decimal.natOfDigits (Glyph.chars digits), s.drop digits.length)

/-- The handle of a tag: an exclamation mark, or a name between two of them. In a directive it must
be one of these; elsewhere the second mark may be missing. -/
def tagHandle? (inDirective : Bool) (s : List Glyph) : Option (List Char × List Glyph) :=
  match s with
  | g :: rest =>
    if g.char ≠ '!' then none
    else
      let name := rest.takeWhile Glyph.isNameChar
      match rest.drop name.length with
      | g2 :: more =>
        if g2.char = '!' then some ('!' :: Glyph.chars name ++ ['!'], more)
        else if inDirective && !name.isEmpty then none
        else some ('!' :: Glyph.chars name, g2 :: more)
      | [] => if inDirective && !name.isEmpty then none else some ('!' :: Glyph.chars name, [])
  | [] => none

/-- Whether a character may stand in a tag; inside angle brackets a few more may. -/
def isTagChar (bracketed : Bool) (g : Glyph) : Bool :=
  g.isNameChar || ";/?:@&=+$.%!~*'()".toList.contains g.char
    || (bracketed && ",[]".toList.contains g.char)

/-- The byte that two hexadecimal digits behind a percent sign stand for. -/
def escapedByte? : List Char → Option (Nat × List Char)
  | '%' :: a :: b :: rest => (Decimal.natOfDigitsBase 16 [a, b]).map fun n => (n, rest)
  | _ => none

/-- So many further bytes of an escaped character. -/
def continuation? : Nat → List Char → Option (List UInt8 × List Char)
  | 0, s => some ([], s)
  | n + 1, s => do
    let (b, rest) ← escapedByte? s
    if b / 64 ≠ 2 then none
    let (more, rest) ← continuation? n rest
    return (b.toUInt8 :: more, rest)

/-- The bytes of a character that is escaped byte for byte: the first says how many follow. -/
def escapedChar? (s : List Char) : Option (List UInt8 × List Char) := do
  let (b, rest) ← escapedByte? s
  let more ←
    if b < 0x80 then some 0
    else if b / 32 = 6 then some 1
    else if b / 16 = 14 then some 2
    else if b / 8 = 30 then some 3
    else none
  let (others, rest) ← continuation? more rest
  return (b.toUInt8 :: others, rest)

/-- The bytes of a tag with its escapes replaced, where at most so many characters are left. -/
def unescape? : Nat → List Char → Option (List UInt8)
  | _, [] => some []
  | 0, _ => none
  | n + 1, c :: rest =>
    if c = '%' then do
      let (bytes, more) ← escapedChar? (c :: rest)
      return bytes ++ (← unescape? n more)
    else (unescape? n rest).map (c.toUInt8 :: ·)

/-- The rest of a tag, behind some characters that belong to it already. -/
def tagRest? (bracketed : Bool) (head : List Char) (s : List Glyph) :
    Option (Tag × List Glyph) := do
  let taken := s.takeWhile (isTagChar bracketed)
  if head.isEmpty ∧ taken.isEmpty then none
  let bytes ← unescape? taken.length (Glyph.chars taken)
  return (⟨(head.drop 1).map Char.toUInt8 ++ bytes⟩, s.drop taken.length)

/-- A tag, from its exclamation mark on. -/
def tag? (inFlow : Bool) (s : List Glyph) : Option (Token × List Glyph) := do
  let (t, rest) ← form? s
  if (inFlow && Glyph.startsWith ',' rest) || Glyph.atGap rest then return (t, rest) else none
where
  /-- A tag in one of its forms: in angle brackets, behind a handle, or bare. -/
  form? (s : List Glyph) : Option (Token × List Glyph) := do
    if Glyph.startsWith '<' (s.drop 1) then
      let (uri, rest) ← tagRest? true [] (s.drop 2)
      if Glyph.startsWith '>' rest then return (.tag "" uri, rest.drop 1) else none
    else
      let (handle, rest) ← tagHandle? false s
      if 1 < handle.length && handle.getLast? = some '!' then
        let (suffix, rest) ← tagRest? false [] rest
        return (.tag (String.ofList handle) suffix, rest)
      else
        let (suffix, rest) ← tagRest? false handle rest
        if suffix.octets.isEmpty then return (.tag "" (.ofString "!"), rest)
        else return (.tag "!" suffix, rest)

/-- The name of an anchor, and the text behind it. -/
def anchorName? (s : List Glyph) : Option (String × List Glyph) :=
  let name := s.takeWhile Glyph.isNameChar
  let rest := s.drop name.length
  let ends := match rest with
    | [] => true
    | g :: _ => g.isBlank || g.isBreak || "?:,]\x7d%@\x60".toList.contains g.char
  if name.isEmpty ∨ !ends then none else some (Glyph.text name, rest)

/-- A directive, behind its percent sign. -/
def directive? (s : List Glyph) : Option (Token × List Glyph) := do
  let name := s.takeWhile Glyph.isNameChar
  let rest := s.drop name.length
  if name.isEmpty || !Glyph.atGap rest then none
  let rest := rest.dropWhile Glyph.isBlank
  if Glyph.text name = "YAML" then
    let (major, rest) ← versionNumber? rest
    if !Glyph.startsWith '.' rest then none
    let (minor, rest) ← versionNumber? (rest.drop 1)
    return (.versionDirective major minor, ← endOfLine? rest)
  else if Glyph.text name = "TAG" then
    let (handle, rest) ← tagHandle? true rest
    if !(rest.take 1).any Glyph.isBlank then none
    let (start, rest) ← tagRest? true [] (rest.dropWhile Glyph.isBlank)
    if !Glyph.atGap rest then none
    return (.tagDirective (String.ofList handle) start, ← endOfLine? rest)
  else none

/-! ## The next token -/

/-- Leave all blocks; no key may start behind this. -/
def outside (l : Lexer) : Option Lexer := do
  let l ← (l.unindent (-1)).dropCandidate
  return { l with keyAllowed := false }

/-- The beginning or the end of a document. -/
def documentMarker (l : Lexer) (t : Token) : Option Lexer := do
  return ((← l.outside).skip 3).emit t

/-- The opening of a flow collection. -/
def openFlow (l : Lexer) (t : Token) : Option Lexer := do
  let l ← l.saveCandidate
  return ({ l with candidates := none :: l.candidates, keyAllowed := true }.skip 1).emit t

/-- The end of a flow collection. -/
def closeFlow (l : Lexer) (t : Token) : Option Lexer := do
  let l ← l.dropCandidate
  let candidates := if l.inFlow then l.candidates.drop 1 else l.candidates
  return ({ l with candidates, keyAllowed := false }.skip 1).emit t

/-- A comma in a flow collection. -/
def flowEntry (l : Lexer) : Option Lexer := do
  let l ← l.dropCandidate
  return ({ l with keyAllowed := true }.skip 1).emit .flowEntry

/-- A hyphen in front of an item. -/
def blockEntry (l : Lexer) : Option Lexer := do
  if !l.inFlow && !l.keyAllowed then none
  let l ← (l.openBlock .blockSequenceStart).dropCandidate
  return ({ l with keyAllowed := true }.skip 1).emit .blockEntry

/-- A question mark in front of a key. -/
def explicitKey (l : Lexer) : Option Lexer := do
  if !l.inFlow && !l.keyAllowed then none
  let l ← (l.openBlock .blockMappingStart).dropCandidate
  return ({ l with keyAllowed := !l.inFlow }.skip 1).emit .key

/-- A colon behind a key; the candidate becomes one, if there is a candidate. -/
def valueMark (l : Lexer) : Option Lexer :=
  match l.candidates with
  | some k :: outer =>
    let opens := l.opensBlock k.place.column
    let tokens : List Token := if opens then [.key, .blockMappingStart] else [.key]
    let l := { l with
      cells := fillSlot k.slot tokens l.cells
      candidates := none :: outer
      keyAllowed := false }
    let l := if opens then l.enterBlock k.place.column else l
    some ((l.skip 1).emit .value)
  | _ =>
    if !l.inFlow && !l.keyAllowed then none
    else
      let l := l.openBlock .blockMappingStart
      some (({ l with keyAllowed := !l.inFlow }.skip 1).emit .value)

/-- A token of its own that may be a key, read by `scan` behind its first character. -/
def node (l : Lexer) (scan : List Glyph → Option (Token × List Glyph)) : Option Lexer := do
  let l ← l.saveCandidate
  let (t, rest) ← scan l.rest
  return { l with rest, keyAllowed := false }.emit t

/-- A quoted scalar. -/
def quoted (read : List Glyph → Option (List Scalar.Part × List Glyph)) (s : List Glyph) :
    Option (Token × List Glyph) :=
  (read (s.drop 1)).map fun r =>
    (.scalar false (String.ofList (Scalar.fold Scalar.Gap.none r.1)), r.2)

/-- A block scalar. -/
def blockScalar (l : Lexer) (literal : Bool) : Option Lexer := do
  let l ← l.dropCandidate
  let (text, rest) ← Scalar.blockScalar literal l.indent (l.rest.drop 1)
  return { l with rest, keyAllowed := true }.emit (.scalar false (String.ofList text))

/-- A plain scalar. -/
def plainScalar (l : Lexer) : Option Lexer := do
  let l ← l.saveCandidate
  let (text, broken, rest) ← Scalar.plain l.inFlow (l.indent + 1) Scalar.Gap.none l.rest
  return { l with rest, keyAllowed := broken }.emit (.scalar true (String.ofList text))

/-- Whether a plain scalar may start with a text. -/
def startsPlain (inFlow : Bool) : List Glyph → Bool
  | [] => false
  | g :: rest =>
    (!g.isBlank && !g.isBreak && !"-?:,[]\x7b\x7d#&*!|>'\"%@\x60".toList.contains g.char)
      || (g.char = '-' && !(rest.take 1).any Glyph.isBlank)
      || (!inFlow && (g.char = '?' || g.char = ':') && !Glyph.atGap rest)

/-- Read the next token; none if there is no token that the text may start with. -/
def next (l : Lexer) (g : Glyph) (rest : List Glyph) : Option Lexer :=
  let c := g.char
  if g.place.column = 0 && c = '%' then do
    let l ← l.outside
    let (t, rest) ← directive? rest
    return { l with rest }.emit t
  else if Glyph.startsMarker '-' (g :: rest) then l.documentMarker .documentStart
  else if Glyph.startsMarker '.' (g :: rest) then l.documentMarker .documentEnd
  else if c = '[' then l.openFlow .flowSequenceStart
  else if c = '\x7b' then l.openFlow .flowMappingStart
  else if c = ']' then l.closeFlow .flowSequenceEnd
  else if c = '\x7d' then l.closeFlow .flowMappingEnd
  else if c = ',' then l.flowEntry
  else if c = '-' && Glyph.atGap rest then l.blockEntry
  else if c = '?' && (l.inFlow || Glyph.atGap rest) then l.explicitKey
  else if c = ':' && (l.inFlow || Glyph.atGap rest) then l.valueMark
  else if c = '*' then
    l.node fun s => (anchorName? (s.drop 1)).map fun r => (.alias r.1, r.2)
  else if c = '&' then
    l.node fun s => (anchorName? (s.drop 1)).map fun r => (.anchor r.1, r.2)
  else if c = '!' then l.node (tag? l.inFlow)
  else if c = '|' && !l.inFlow then l.blockScalar true
  else if c = '>' && !l.inFlow then l.blockScalar false
  else if c = '\'' then l.node (quoted Scalar.singleQuoted)
  else if c = '"' then l.node (quoted Scalar.doubleQuoted)
  else if startsPlain l.inFlow (g :: rest) then l.plainScalar
  else none

/-- The end of the text. -/
def atEnd (l : Lexer) : Option Lexer :=
  (l.unindent (-1)).dropCandidate

/-- Read all tokens, where at most so many are left. -/
def run : Nat → Lexer → Option Lexer
  | 0, _ => none
  | n + 1, l => do
    let l ← l.toNextToken.dropStale
    let l := l.unindent l.column
    match l.rest with
    | [] => l.atEnd
    | g :: rest => run n (← l.next g rest)

end Lexer

namespace Token

/-- The tokens of a text; none if the text cannot be cut into tokens. -/
def ofText? (text : List Char) : Option (List Token) := do
  let (s, finish) ← Glyph.ofText? text
  let l ← (Lexer.start s finish).run (s.length + 1)
  return l.cells.reverse.filterMap fun
    | .token t => some t
    | .slot _ => none

end Token

end Casebook.Yaml
