import Casebook.Error
import Casebook.Template.Basic
import Casebook.Template.Literal
import Casebook.Text.Word

/-!
# Reading templates

The grammar of templates, read with longest match:

```text
template    := (character | '$$' | '$' WORD | placeholder)*
placeholder := '${' blanks WORD blanks ('(' arguments ')' blanks)? '}'
arguments   := blanks | argument (',' argument)*
argument    := (WORD blanks '=')? blanks (quoted | unquoted) blanks
quoted      := '"' template '"' | '\'' template '\''
unquoted    := template up to the next ',' or ')', not blank
```

Inside quotes a backslash in front of the quote or of another backslash is dropped. Each reader
takes a text and returns what it read together with the rest, which is no longer than the text;
a problem is reported with the rest it was found at. Placeholders may nest as deeply as there is
room, and a placeholder uses up one unit of it.
-/

namespace Casebook.Template

open Text

/-- What is wrong with a text that is no template. -/
inductive Problem where
  | nameExpected
  | braceExpected
  | separatorExpected
  | emptyArgument
  | unterminatedString
  | functionNameExpected
  | trailingInput
  deriving DecidableEq

namespace Problem

/-- The wording of a problem. -/
def message : Problem → String
  | nameExpected => "expected a name after '$\x7b'"
  | braceExpected => "expected '\x7d'"
  | separatorExpected => "expected ',' or ')'"
  | emptyArgument => "empty argument"
  | unterminatedString => "unterminated string"
  | functionNameExpected => "expected a function name"
  | trailingInput => "unexpected trailing input"

end Problem

/-- Why a reader stopped: a problem at the rest of the text, or nesting without room for it. -/
inductive Failure where
  | problem (p : Problem) (rest : List Char)
  | tooDeep
  deriving DecidableEq

/-- What was read from the front of a text, and the text behind it. -/
structure Scanned (α : Type) (s : List Char) where
  value : α
  rest : List Char
  le : rest.length ≤ s.length

/-- A reader of one kind of thing. -/
abbrev Reader (α : Type) := (s : List Char) → Except Failure (Scanned α s)

namespace Scanned

/-- The text that was read. -/
def taken {α : Type} {s : List Char} (r : Scanned α s) : List Char :=
  s.take (s.length - r.rest.length)

end Scanned

/-! ## Text up to a stop -/

/-- Where the text of a template ends. -/
inductive Stop where
  /-- At the end of the whole text. -/
  | never
  /-- In front of a quote. -/
  | quote (delimiter : Char)
  /-- In front of what ends an argument. -/
  | argument
  deriving DecidableEq

namespace Stop

/-- Whether the text ends in front of a character. -/
def endsAt : Stop → Char → Bool
  | never, _ => false
  | quote delimiter, c => c = delimiter
  | argument, c => c = ',' || c = ')'

/-- Whether a backslash in front of a character is dropped. -/
def escapes : Stop → Char → Bool
  | quote delimiter, c => c = delimiter || c = '\\'
  | _, _ => false

end Stop

/-- A character of a template or a placeholder. -/
inductive Piece where
  | char (c : Char)
  | placeholder (s : Segment)

/-- Segments with a text in front of them, unless it is empty. -/
def consText : List Char → List Segment → List Segment
  | [], segments => segments
  | text, segments => .text (String.ofList text) :: segments

/-- The characters that pieces begin with, and the segments of what follows. -/
def splitPieces : List Piece → List Char × List Segment
  | [] => ([], [])
  | .char c :: rest =>
    let r := splitPieces rest
    (c :: r.1, r.2)
  | .placeholder s :: rest =>
    let r := splitPieces rest
    ([], s :: consText r.1 r.2)

/-- Join neighbouring characters into text. -/
def ofPieces (pieces : List Piece) : List Segment :=
  let r := splitPieces pieces
  consText r.1 r.2

/-- The piece that a character and what follows it begin with. The reader of placeholders starts
behind the opening brace. -/
def piece (placeholder : Reader Segment) (stop : Stop) (c : Char) (rest : List Char) :
    Except Failure (Scanned Piece rest) :=
  if c = '\\' then
    match rest with
    | [] => .ok ⟨.char c, [], Nat.le_refl _⟩
    | x :: after =>
      if stop.escapes x then .ok ⟨.char x, after, Nat.le_succ _⟩
      else .ok ⟨.char c, x :: after, Nat.le_refl _⟩
  else if c = '$' then
    match rest with
    | [] => .ok ⟨.char c, [], Nat.le_refl _⟩
    | x :: after =>
      if x = '$' then .ok ⟨.char c, after, Nat.le_succ _⟩
      else if x = '\x7b' then
        (placeholder after).map fun p => ⟨.placeholder p.value, p.rest, Nat.le_succ_of_le p.le⟩
      else if isWord x then
        .ok ⟨.placeholder (.var (String.ofList (word (x :: after)).1)), (word (x :: after)).2,
          length_word_le _⟩
      else .ok ⟨.char c, x :: after, Nat.le_refl _⟩
  else .ok ⟨.char c, rest, Nat.le_refl _⟩

/-- The pieces of a template up to its stop. -/
def pieces (placeholder : Reader Segment) (stop : Stop) (s : List Char) :
    Except Failure (Scanned (List Piece) s) :=
  match s with
  | [] => .ok ⟨[], [], Nat.le_refl _⟩
  | c :: rest =>
    if stop.endsAt c then .ok ⟨[], c :: rest, Nat.le_refl _⟩
    else do
      let p ← piece placeholder stop c rest
      have hp := p.le
      let r ← pieces placeholder stop p.rest
      return ⟨p.value :: r.value, r.rest, Nat.le_succ_of_le (Nat.le_trans r.le hp)⟩
termination_by s.length
decreasing_by exact Nat.lt_succ_of_le hp

/-! ## Arguments -/

/-- The keyword in front of an argument: a word and an equals sign that is not doubled. -/
def keyword? (s : List Char) : Option (String × List Char) :=
  match word s with
  | ([], _) => none
  | (name, rest) =>
    match skipBlanks rest with
    | '=' :: after => if after.head? = some '=' then none else some (String.ofList name, after)
    | _ => none

theorem length_keyword?_lt {s rest : List Char} {name : String}
    (h : keyword? s = some (name, rest)) : rest.length < s.length := by
  simp only [keyword?] at h
  split at h
  · simp at h
  · next w r _ hw =>
    have hr : r.length ≤ s.length := by
      have := length_word_le s
      rwa [hw] at this
    split at h
    · next after hb =>
      have := length_skipBlanks_le r
      rw [hb] at this
      split at h
      · simp at h
      · simp only [Option.some.injEq, Prod.mk.injEq] at h
        simp only [List.length_cons] at this
        rw [← h.2]
        omega
    · simp at h

/-- The keyword of an argument, if there is one, and the text behind it. -/
def keyword (s : List Char) : Option String × List Char :=
  match keyword? s with
  | some (name, rest) => (some name, rest)
  | none => (none, s)

theorem length_keyword_le (s : List Char) : (keyword s).2.length ≤ s.length := by
  simp only [keyword]
  split
  · next h => exact Nat.le_of_lt (length_keyword?_lt h)
  · exact Nat.le_refl _

/-- Drop the blanks a list of segments ends with. -/
def trimLast : List Segment → List Segment
  | [] => []
  | [.text s] =>
    match trimEnd s.toList with
    | [] => []
    | kept => [.text (String.ofList kept)]
  | s :: rest => s :: trimLast rest

/-- The text of segments that are all text. -/
def plainText : List Segment → String
  | [] => ""
  | .text s :: rest => s ++ plainText rest
  | _ :: rest => plainText rest

/-- An unquoted argument: typed text if it has no placeholder. -/
def unquoted (key : Option String) (segments : List Segment) (source : String) : Argument :=
  if segments.all Segment.isText then .literal key (Literal.value (plainText segments)) source
  else .expr key segments source

/-- The value of an argument, behind its keyword and blanks. -/
def argumentValue (placeholder : Reader Segment) (key : Option String) (s : List Char) :
    Except Failure (Scanned Argument s) :=
  match s with
  | [] => .error (.problem .emptyArgument [])
  | q :: inner =>
    if q = '"' ∨ q = '\'' then do
      let r ← pieces placeholder (.quote q) inner
      match h : r.rest with
      | [] => .error (.problem .unterminatedString [])
      | _ :: after =>
        return ⟨.quoted key q (ofPieces r.value) (String.ofList r.taken), after, by
          have := r.le; rw [h] at this; simp only [List.length_cons] at *; omega⟩
    else do
      let r ← pieces placeholder .argument (q :: inner)
      let segments := trimLast (ofPieces r.value)
      if segments.isEmpty then .error (.problem .emptyArgument r.rest)
      else return ⟨unquoted key segments (String.ofList (trimEnd r.taken)), r.rest, r.le⟩

/-- One argument. -/
def argument (placeholder : Reader Segment) (s : List Char) :
    Except Failure (Scanned Argument s) := do
  let k := keyword (skipBlanks s)
  let r ← argumentValue placeholder k.1 (skipBlanks k.2)
  return ⟨r.value, r.rest, by
    have h1 := r.le
    have h2 := length_skipBlanks_le k.2
    have h3 := length_keyword_le (skipBlanks s)
    have h4 := length_skipBlanks_le s
    exact Nat.le_trans (Nat.le_trans h1 h2) (Nat.le_trans h3 h4)⟩

/-- Arguments up to and including the closing parenthesis. -/
def moreArguments (placeholder : Reader Segment) (s : List Char) :
    Except Failure (Scanned (List Argument) s) := do
  let a ← argument placeholder s
  have ha := a.le
  have hb := length_skipBlanks_le a.rest
  match h : skipBlanks a.rest with
  | [] => .error (.problem .separatorExpected [])
  | c :: after =>
    if c = ',' then
      let more ← moreArguments placeholder after
      return ⟨a.value :: more.value, more.rest, by
        have := more.le; rw [h] at hb; simp only [List.length_cons] at hb; omega⟩
    else if c = ')' then
      return ⟨[a.value], after, by rw [h] at hb; simp only [List.length_cons] at hb; omega⟩
    else .error (.problem .separatorExpected (c :: after))
termination_by s.length
decreasing_by
  rw [h] at hb; simp only [List.length_cons] at hb; omega

/-- The arguments behind an opening parenthesis, up to and including the closing one. -/
def arguments (placeholder : Reader Segment) (s : List Char) :
    Except Failure (Scanned (List Argument) s) :=
  have hb := length_skipBlanks_le s
  match h : skipBlanks s with
  | ')' :: after =>
    .ok ⟨[], after, by rw [h] at hb; simp only [List.length_cons] at hb; omega⟩
  | other => do
    let r ← moreArguments placeholder other
    return ⟨r.value, r.rest, by have := r.le; rw [h] at hb; omega⟩

/-! ## Placeholders -/

/-- A name and perhaps arguments, between blanks; the verb call or the variable they make. -/
def nameAndArguments (placeholder : Reader Segment) (s : List Char) :
    Except Failure (Scanned Segment s) :=
  have h1 := length_skipBlanks_le s
  have h2 := length_word_le (skipBlanks s)
  have h3 := length_skipBlanks_le (word (skipBlanks s)).2
  if (word (skipBlanks s)).1.isEmpty then .error (.problem .nameExpected (skipBlanks s))
  else
    let name := String.ofList (word (skipBlanks s)).1
    match h : skipBlanks (word (skipBlanks s)).2 with
    | '(' :: after => do
      let r ← arguments placeholder after
      return ⟨.call ⟨name, r.value⟩, r.rest, by
        have := r.le; rw [h] at h3; simp only [List.length_cons] at h3; omega⟩
    | other => .ok ⟨.var name, other, by rw [h] at h3; omega⟩

/-- A placeholder, read behind its opening brace, with room for so many levels. -/
def placeholder : Nat → Reader Segment
  | 0, _ => .error .tooDeep
  | room + 1, s => do
    let r ← nameAndArguments (placeholder room) s
    have h1 := r.le
    have h2 := length_skipBlanks_le r.rest
    match h : skipBlanks r.rest with
    | '\x7d' :: after =>
      return ⟨r.value, after, by rw [h] at h2; simp only [List.length_cons] at h2; omega⟩
    | other => .error (.problem .braceExpected other)

/-! ## Whole texts -/

/-- Why a text is not what it should be: a problem and the column it was found at, counted in
characters from one, or too many levels of placeholders. -/
inductive Fault where
  | problem (p : Problem) (column : Nat)
  | tooDeep (limit : Nat)
  deriving DecidableEq

namespace Fault

/-- The fault that a failure is in a text. -/
def ofFailure (text : List Char) (limit : Nat) : Failure → Fault
  | .problem p rest => .problem p (text.length - rest.length + 1)
  | .tooDeep => .tooDeep limit

/-- The error that a fault in a text is reported as. -/
def toError (text : String) : Fault → Error
  | .problem p column => .templateSyntax text s!"{p.message} at column {column}"
  | .tooDeep limit => .recursionLimit limit

end Fault

/-- Read a text as a template. -/
def read (limit : Nat) (text : List Char) : Except Fault Template :=
  match pieces (placeholder limit) .never text with
  | .ok r => .ok ⟨ofPieces r.value⟩
  | .error failure => .error (.ofFailure text limit failure)

/-- A call in its bare form, a name and perhaps arguments, and the text behind it. -/
def bareCall (limit : Nat) (s : List Char) : Except Failure (Call × List Char) :=
  if (word s).1.isEmpty then .error (.problem .functionNameExpected s)
  else
    let name := String.ofList (word s).1
    match skipBlanks (word s).2 with
    | '(' :: after => (arguments (placeholder limit) after).map fun r => (⟨name, r.value⟩, r.rest)
    | other => .ok (⟨name, []⟩, other)

/-- A call in either form, and the text behind it. A variable counts as a call without
arguments. -/
def callInFront (limit : Nat) (s : List Char) : Except Failure (Call × List Char) :=
  match s with
  | '$' :: '\x7b' :: inner =>
    (placeholder limit inner).map fun r =>
      match r.value with
      | .call c => (c, r.rest)
      | .var name => (⟨name, []⟩, r.rest)
      | .text _ => (⟨"", []⟩, r.rest)
  | _ => bareCall limit s

/-- Read a text without outer blanks as a call. -/
def readCall (limit : Nat) (text : List Char) : Except Fault Call :=
  match callInFront limit text with
  | .error failure => .error (.ofFailure text limit failure)
  | .ok (c, rest) =>
    match skipBlanks rest with
    | [] => .ok c
    | other => .error (.ofFailure text limit (.problem .trailingInput other))

/-- The template that a text is, with placeholders nested at most as deep as the limit. -/
def parse (limit : Nat) (text : String) : Except Error Template :=
  (read limit text.toList).mapError (Fault.toError text)

/-- The call that a text is once blanks are trimmed: a name, a name with arguments in
parentheses, or either between `${` and `}`. -/
def parseCall (limit : Nat) (text : String) : Except Error Call :=
  (readCall limit (trim text.toList)).mapError (Fault.toError (trimmed text))

end Casebook.Template
