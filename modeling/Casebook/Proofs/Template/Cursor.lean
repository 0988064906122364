import Casebook.Template.Parser
import Mathlib.Data.Nat.Notation

/-!
# Reading at a position

The parser of templates once more, as a cursor that moves over the characters of a text. A cursor
has a position, and it counts the placeholders it is in. It looks at characters by their index, cuts
out what lies between two positions, and goes back to where a keyword would have begun.

None of these steps is safe in itself. A cursor may take a character where there is none, cut out
what no text has, or leave a placeholder that it is not in; each of these is a `Slip`, an ending of
its own. Neither need its routines come to an end, as nothing makes a cursor move on before it calls
the next one. So they are told how many calls may be nested in theirs, and one call too many is a
slip as well. That a cursor with enough calls never slips is a theorem about it.
-/

namespace Casebook.Template

open Text

/-- What a cursor must not do. -/
inductive Slip where
  /-- Take a character where the text has none. -/
  | index
  /-- Cut out what does not lie between two positions of the text, the first one in front. -/
  | range
  /-- Look for a position in front of the first. -/
  | position
  /-- Leave a placeholder without being in one. -/
  | depth
  /-- Nest one call more than there may be. -/
  | call

/-- Why a cursor stops early. -/
inductive Halt where
  | error (e : Error)
  | slip (s : Slip)

/-- A place in a text, and the number of placeholders around it that have been entered. -/
structure Cursor where
  position : ℕ
  depth : ℕ

/-- A computation that moves a cursor. -/
abbrev Moving (α : Type) := StateT Cursor (Except Halt) α

namespace Cursor

/-! ## Steps -/

section Steps

variable (text : String)

/-- The character so far ahead, if there is one. -/
def peek (ahead : ℕ) : Moving (Option Char) := do
  return text.toList[(← get).position + ahead]?

/-- The character at an index. -/
def charAt (index : ℕ) : Moving Char :=
  match text.toList[index]? with
  | some c => pure c
  | none => throw (.slip .index)

/-- The text from one position up to another. -/
def cut (first last : ℕ) : Moving (List Char) :=
  if first ≤ last ∧ last ≤ text.toList.length then
    pure ((text.toList.drop first).take (last - first))
  else throw (.slip .range)

/-- The position in front of another. -/
def before : ℕ → Moving ℕ
  | 0 => throw (.slip .position)
  | position + 1 => pure position

def moveTo (position : ℕ) : Moving Unit :=
  modify fun c => { c with position }

def advance (n : ℕ) : Moving Unit :=
  modify fun c => { c with position := c.position + n }

/-- Report a problem at the column of the cursor. -/
def report {α : Type} (message : String) : Moving α := do
  let column := (← get).position + 1
  throw (.error (.templateSyntax text s!"{message} at column {column}"))

/-- Count a placeholder that is entered. -/
def enter (limit : ℕ) : Moving Unit := do
  modify fun c => { c with depth := c.depth + 1 }
  if limit < (← get).depth then throw (.error (.recursionLimit limit))

/-- Count a placeholder that is left. -/
def leave : Moving Unit := do
  match (← get).depth with
  | 0 => throw (.slip .depth)
  | depth + 1 => modify fun c => { c with depth }

/-- Move past a character, if it is the next one. -/
def eat (c : Char) : Moving Bool := do
  if (← peek text 0) = some c then
    advance 1
    return true
  else return false

/-- Move past all characters of a kind. -/
def skipWhile (p : Char → Bool) : ℕ → Moving Unit
  | 0 => throw (.slip .call)
  | calls + 1 => do
    if (← peek text 0).any p then
      advance 1
      skipWhile p calls

/-- The word that the cursor stands in front of. -/
def word (calls : ℕ) : Moving (List Char) := do
  let first := (← get).position
  skipWhile text isWord calls
  cut text first (← get).position

/-- The keyword that the cursor stands in front of. Without one it goes back. -/
def keyword (calls : ℕ) : Moving (Option String) := do
  let first := (← get).position
  let name ← word text calls
  if name.isEmpty then
    moveTo first
    return none
  else
    skipWhile text isBlank calls
    if (← peek text 0) = some '=' ∧ (← peek text 1) ≠ some '=' then
      advance 1
      return some (String.ofList name)
    else
      moveTo first
      return none

end Steps

/-! ## Templates and arguments -/

/-- Segments with the text behind them, unless it is empty. -/
def flush (segments : List Segment) (part : List Char) : List Segment :=
  segments ++ consText part []

section Grammar

variable (text : String) (limit : ℕ)

mutual

/-- A template up to its stop, behind the segments and the text that were read of it before. -/
def template (stop : Stop) (segments : List Segment) (part : List Char) :
    ℕ → Moving (List Segment)
  | 0 => throw (.slip .call)
  | calls + 1 => do
    match ← peek text 0 with
    | none => return flush segments part
    | some c =>
      if stop.endsAt c then return flush segments part
      else if c = '\\' ∧ (← peek text 1).any stop.escapes then
        let next ← charAt text ((← get).position + 1)
        advance 2
        template stop segments (part ++ [next]) calls
      else if c ≠ '$' then
        advance 1
        template stop segments (part ++ [c]) calls
      else
        match ← peek text 1 with
        | none =>
          advance 1
          template stop segments (part ++ ['$']) calls
        | some next =>
          if next = '$' then
            advance 2
            template stop segments (part ++ ['$']) calls
          else if next = '\x7b' then
            let segment ← placeholder calls
            template stop (flush segments part ++ [segment]) [] calls
          else if isWord next then
            advance 1
            let name ← word text calls
            template stop (flush segments part ++ [.var (String.ofList name)]) [] calls
          else
            advance 1
            template stop segments (part ++ ['$']) calls

/-- A placeholder, from its dollar on. -/
def placeholder : ℕ → Moving Segment
  | 0 => throw (.slip .call)
  | calls + 1 => do
    advance 2
    enter limit
    let segment ← nameAndArguments calls
    skipWhile text isBlank calls
    if ← eat text '\x7d' then
      leave
      return segment
    else report text Problem.braceExpected.message

/-- A name and perhaps arguments, between blanks. -/
def nameAndArguments : ℕ → Moving Segment
  | 0 => throw (.slip .call)
  | calls + 1 => do
    skipWhile text isBlank calls
    let name ← word text calls
    if name.isEmpty then report text Problem.nameExpected.message
    else
      skipWhile text isBlank calls
      if ← eat text '(' then
        let args ← arguments calls
        return .call ⟨String.ofList name, args⟩
      else return .var (String.ofList name)

/-- The arguments behind an opening parenthesis, up to and including the closing one. -/
def arguments : ℕ → Moving (List Argument)
  | 0 => throw (.slip .call)
  | calls + 1 => do
    skipWhile text isBlank calls
    if ← eat text ')' then return []
    else moreArguments [] calls

/-- The rest of the arguments, behind those that were read before. -/
def moreArguments (args : List Argument) : ℕ → Moving (List Argument)
  | 0 => throw (.slip .call)
  | calls + 1 => do
    let a ← argument calls
    skipWhile text isBlank calls
    if ← eat text ',' then moreArguments (args ++ [a]) calls
    else if ← eat text ')' then return args ++ [a]
    else report text Problem.separatorExpected.message

/-- One argument. -/
def argument : ℕ → Moving Argument
  | 0 => throw (.slip .call)
  | calls + 1 => do
    skipWhile text isBlank calls
    let key ← keyword text calls
    skipWhile text isBlank calls
    match ← peek text 0 with
    | none => unquoted key calls
    | some q => if q = '"' ∨ q = '\'' then quoted key q calls else unquoted key calls

/-- An argument from its opening quote on. Its text is cut out twice, without and with its quotes;
the second one is `Argument.raw`. -/
def quoted (key : Option String) (q : Char) : ℕ → Moving Argument
  | 0 => throw (.slip .call)
  | calls + 1 => do
    let first := (← get).position
    advance 1
    let segments ← template (.quote q) [] [] calls
    if ← eat text q then
      let last := (← get).position
      let source ← cut text (first + 1) (← before last)
      let _ ← cut text first last
      return .quoted key q segments (String.ofList source)
    else report text Problem.unterminatedString.message

/-- An argument without quotes. -/
def unquoted (key : Option String) : ℕ → Moving Argument
  | 0 => throw (.slip .call)
  | calls + 1 => do
    let first := (← get).position
    let segments := trimLast (← template .argument [] [] calls)
    if segments.isEmpty then report text Problem.emptyArgument.message
    else
      let source ← cut text first (← get).position
      return Template.unquoted key segments (String.ofList (trimEnd source))

end

/-! ## Whole texts -/

variable (calls : ℕ)

/-- End a reading at the end of the text. -/
def finish {α : Type} (a : α) : Moving α := do
  if text.toList.length ≤ (← get).position then return a
  else report text Problem.trailingInput.message

/-- A text as a template. -/
def wholeTemplate : Moving Template := do
  let segments ← template text limit .never [] [] calls
  finish text ⟨segments⟩

/-- A call in its bare form. -/
def bareCall : Moving Call := do
  let name ← word text calls
  if name.isEmpty then report text Problem.functionNameExpected.message
  else
    skipWhile text isBlank calls
    if ← eat text '(' then
      let args ← arguments text limit calls
      return ⟨String.ofList name, args⟩
    else return ⟨String.ofList name, []⟩

/-- A call in either form. -/
def callInFront : Moving Call := do
  if ['$', '\x7b'].isPrefixOf text.toList then
    match ← placeholder text limit calls with
    | .call c => return c
    | .var name => return ⟨name, []⟩
    | .text _ => report text "expected a function call"
  else bareCall text limit calls

/-- A text without outer blanks as a call. -/
def wholeCall : Moving Call := do
  let call ← callInFront text limit calls
  skipWhile text isBlank calls
  finish text call

end Grammar

/-- What a computation comes to from the start of a text. -/
def run {α : Type} (m : Moving α) : Except Halt α :=
  m.run' ⟨0, 0⟩

/-- The template that a text is, read by a cursor with so many calls. -/
def parse (calls limit : ℕ) (text : String) : Except Halt Template :=
  run (wholeTemplate text limit calls)

/-- The call that a text is, read by a cursor with so many calls. -/
def parseCall (calls limit : ℕ) (text : String) : Except Halt Call :=
  run (wholeCall (trimmed text) limit calls)

end Cursor

end Casebook.Template
