import Casebook.Pattern.Bracketed
import Casebook.Text.Word

/-!
# Reading patterns

The notation of regular expressions with groups, named groups, flags such as `(?i)`, counted
repetitions, bracketed sets with nested sets and set operations, and properties of characters.
What the machine could not run in one pass over a text, back references and looking around, is
refused, and so is what is nested too deeply.

Every reader is given fuel, of which `parse?` provides more than the text has characters.
-/

namespace Casebook.Pattern

open Reading Text Unicode

/-! ## Repetitions -/

/-- How often something is repeated. -/
structure Count where
  min : Nat
  max : Option Nat

/-- The largest number a count may have. -/
def maxCount : Nat := 0xFFFFFFFF

/-- A decimal number, perhaps between blanks. -/
def decimal (flags : Flags) : Reading Nat := do
  goTo (skipBlanks (← rest))
  let ds ← spaced flags Decimal.isDigit
  goTo (skipBlanks (← rest))
  skipIgnored flags
  if ds = [] ∨ maxCount < Decimal.natOfDigits ds then failure
  return Decimal.natOfDigits ds

/-- The count in braces, behind the opening one. -/
def countInBraces (flags : Flags) : Reading Count := do
  skipIgnored flags
  let min ← decimal flags
  let count : Count ←
    if ← accept "," then
      skipIgnored flags
      if (← peek) = some '\x7d' then pure ⟨min, none⟩
      else
        let max ← decimal flags
        pure ⟨min, some max⟩
    else pure ⟨min, some min⟩
  expect "\x7d"
  if count.max.any (· < count.min) then failure
  skipIgnored flags
  return count

/-- The repetition of an expression, with its question mark if it is lazy. -/
def repetition (flags : Flags) (count : Count) (body : Nested Regex) : Reading (Nested Regex) := do
  let lazy ← accept "?"
  return ⟨.rounds count.min count.max (lazy == flags.swapGreed) body.value, body.depth + 1⟩

/-! ## Flags -/

/-- The flags up to the character behind them: those written before a hyphen are switched on, those
behind it off. -/
def readFlags : Nat → Bool → List Char → Flags → Reading Flags
  | 0, _, _, _ => failure
  | fuel + 1, on, seen, flags => do
    match ← peek with
    | some ':' | some ')' =>
      if seen.head? = some '-' then failure
      return flags
    | none => failure
    | some c =>
      skip 1
      if seen.contains c then failure
      let flags ←
        match c with
        | '-' => pure flags
        | 'i' => pure { flags with ignoreCase := on }
        | 'm' => pure { flags with multiLine := on }
        | 's' => pure { flags with dotAll := on }
        | 'U' => pure { flags with swapGreed := on }
        | 'R' => pure { flags with crlf := on }
        | 'u' => pure { flags with unicode := on }
        | 'x' => pure { flags with ignoreBlanks := on }
        | _ => failure
      readFlags fuel (on && c ≠ '-') (c :: seen) flags

/-! ## Groups -/

/-- A group name up to its closing angle bracket; no two groups have one name. -/
def groupName : Reading Unit := do
  let name := (← rest).takeWhile (· ≠ '>')
  skip name.length
  expect ">"
  let isNext (c : Char) : Bool := c = '_' || c = '.' || c = '[' || c = ']' || isAlphanumeric c
  match name with
  | [] => failure
  | first :: more =>
    if !(first = '_' || isAlphabetic first) ∨ !more.all isNext then failure
    let name := String.ofList name
    if (← get).names.contains name then failure
    modify fun p => { p with names := name :: p.names }

/-- Whether a group looks around, which is refused. -/
def looksAround : List Char → Bool
  | '?' :: '=' :: _ | '?' :: '!' :: _ | '?' :: '<' :: '=' :: _ | '?' :: '<' :: '!' :: _ => true
  | _ => false

/-- Count a group that captures; its index. -/
def openGroup : Reading Nat := do
  modify fun p => { p with groups := p.groups + 1 }
  return (← get).groups

/-- What an opening parenthesis begins. -/
inductive Opening where
  | capturing (index : Nat)
  | plain (inner : Flags)
  | change (inner : Flags)

/-- What comes behind an opening parenthesis up to the expression in the group. -/
def opening (flags : Flags) : Reading Opening := do
  skipIgnored flags
  if looksAround (← rest) then failure
  if (← accept "?P<") || (← accept "?<") then
    let index ← openGroup
    groupName
    return .capturing index
  else if ← accept "?" then
    let written ← rest
    let inner ← readFlags (written.length + 1) true [] flags
    if ← accept ")" then
      if written.head? = some ')' then failure
      return .change inner
    else
      expect ":"
      return .plain inner
  else return .capturing (← openGroup)

/-! ## Expressions -/

/-- What a dot matches. -/
def dot (flags : Flags) : CharSet :=
  if flags.dotAll then .all
  else if flags.crlf then (CharSet.ofRows ["A D"]).compl
  else (CharSet.ofRows ["A"]).compl

/-- A character that stands for itself, or for those that differ from it in case alone. Where
patterns are not read as text, letters from U+0080 on have no case. -/
def verbatim (flags : Flags) (c : Char) : Regex :=
  .set (withCase flags (.single c))

/-- A single expression other than a group, which starts with a character. -/
def primitive (flags : Flags) : Reading (Nested Regex) := do
  let c ← next
  match c with
  | '[' =>
    let members ← bracketed ((← rest).length + 1) maxDepth flags
    return ⟨.set members.value, members.depth⟩
  | '.' =>
    if !flags.unicode then failure
    return ⟨.set (dot flags), 0⟩
  | '^' =>
    let c : Condition :=
      if !flags.multiLine then .textStart else if flags.crlf then .lineStartCrlf else .lineStart
    return ⟨.condition c, 0⟩
  | '$' =>
    let c : Condition :=
      if !flags.multiLine then .textEnd else if flags.crlf then .lineEndCrlf else .lineEnd
    return ⟨.condition c, 0⟩
  | '\\' =>
    match ← escape flags with
    | .char c => return ⟨verbatim flags c, 0⟩
    | .set members => return ⟨.set members, 0⟩
    | .condition c => return ⟨.condition c, 0⟩
  | c => return ⟨verbatim flags c, 0⟩

/-- A part of a sequence; a change of flags is a part without an expression. -/
abbrev Part := Option (Nested Regex)

/-- A sequence of parts, which are given from the last to the first. -/
def sequence (parts : List Part) : Nested Regex :=
  ⟨.seqAll (parts.reverse.filterMap fun part => part.map Nested.value),
    depthOfAll (parts.map fun part => (part.map Nested.depth).getD 0)⟩

/-- A choice between alternatives, which are given from the last to the first. -/
def choice (rs : List (Nested Regex)) : Nested Regex :=
  ⟨.altAll (rs.reverse.map Nested.value), depthOfAll (rs.map Nested.depth)⟩

mutual

/-- Alternatives up to a closing parenthesis or the end. Flags that are set inside hold for the
alternatives behind them too. -/
def choices : Nat → Nat → Flags → List (Nested Regex) → Reading (Nested Regex)
  | 0, _, _, _ => failure
  | fuel + 1, room, flags, done => do
    let (parts, flags) ← parts fuel room flags []
    let done := sequence parts :: done
    if ← accept "|" then choices fuel room flags done
    else return choice done

/-- Expressions one after another, up to a bar, a closing parenthesis or the end. -/
def parts : Nat → Nat → Flags → List Part → Reading (List Part × Flags)
  | 0, _, _, _ => failure
  | fuel + 1, room, flags, done => do
    skipIgnored flags
    match ← peek with
    | none | some '|' | some ')' => return (done, flags)
    | some '(' =>
      skip 1
      let (part, flags) ← group fuel room flags
      parts fuel room flags (part :: done)
    | some '*' => again fuel room flags done ⟨0, none⟩
    | some '+' => again fuel room flags done ⟨1, none⟩
    | some '?' => again fuel room flags done ⟨0, some 1⟩
    | some '\x7b' =>
      skip 1
      let count ← countInBraces flags
      repeatLast fuel room flags done count
    | some _ =>
      let part ← primitive flags
      parts fuel room flags (some part :: done)

/-- Repeat the last expression, whose operator is the next character. -/
def again : Nat → Nat → Flags → List Part → Count → Reading (List Part × Flags)
  | 0, _, _, _, _ => failure
  | fuel + 1, room, flags, done, count => do
    skip 1
    repeatLast fuel room flags done count

/-- Repeat the last expression; a change of flags cannot be repeated. -/
def repeatLast : Nat → Nat → Flags → List Part → Count → Reading (List Part × Flags)
  | 0, _, _, _, _ => failure
  | fuel + 1, room, flags, done, count =>
    match done with
    | some body :: earlier => do
      let r ← repetition flags count body
      parts fuel room flags (some r :: earlier)
    | _ => failure

/-- A group or a change of flags, behind the opening parenthesis; and the flags after it. -/
def group : Nat → Nat → Flags → Reading (Part × Flags)
  | 0, _, _ | _, 0, _ => failure
  | fuel + 1, room + 1, flags => do
    match ← opening flags with
    | .change inner => return (none, inner)
    | .plain inner =>
      let body ← choices fuel room inner []
      expect ")"
      return (some ⟨body.value, body.depth + 1⟩, flags)
    | .capturing index =>
      let body ← choices fuel room flags []
      expect ")"
      return (some ⟨.group index body.value, body.depth + 1⟩, flags)

end

/-- The expression that a text is, and the number of its groups. -/
def parse? (text : String) : Option (Regex × Nat) := do
  let s := text.toList
  let (r, p) ← (choices (4 * s.length + 4) (maxDepth + 1) {} []).run ⟨s, 0, []⟩
  if p.rest = [] ∧ r.depth ≤ maxDepth then some (r.value, p.groups) else none

end Casebook.Pattern
