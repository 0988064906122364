import Casebook.Text.Blank

/-!
# Reading patterns character by character

A reader keeps what is left of the text together with the groups met so far. Blanks and comments are
passed over only where the flags say that they mean nothing.
-/

namespace Casebook.Pattern

open Text

/-- What the flags of a group switch on. -/
structure Flags where
  ignoreCase : Bool := false
  multiLine : Bool := false
  dotAll : Bool := false
  swapGreed : Bool := false
  crlf : Bool := false
  unicode : Bool := true
  ignoreBlanks : Bool := false

/-- The text still to be read, the number of groups met so far and the names among them. -/
structure Position where
  rest : List Char
  groups : Nat
  names : List String

/-- A reader of patterns. -/
abbrev Reading := StateT Position Option

/-- Something read, with the depth to which its parts are nested. -/
structure Nested (α : Type) where
  value : α
  depth : Nat

/-- How deeply the parts of a pattern may be nested. -/
def maxDepth : Nat := 250

/-- The depth of some parts together, where two parts or more make a level of their own. -/
def depthOfAll (depths : List Nat) : Nat :=
  let deepest := depths.foldl max 0
  if depths.length < 2 then deepest else deepest + 1

namespace Reading

/-- The next character, if there is one. -/
def peek : Reading (Option Char) := do
  return (← get).rest.head?

/-- The rest of the text. -/
def rest : Reading (List Char) := do
  return (← get).rest

/-- Go on with another rest. -/
def goTo (rest : List Char) : Reading Unit :=
  modify fun p => { p with rest }

/-- Go on behind so many characters. -/
def skip (n : Nat) : Reading Unit :=
  modify fun p => { p with rest := p.rest.drop n }

/-- The next character, which must be there. -/
def next : Reading Char := do
  match (← get).rest with
  | [] => failure
  | c :: rest =>
    goTo rest
    return c

/-- Go on behind a text if it comes next. -/
def accept (s : String) : Reading Bool := do
  if s.toList.isPrefixOf (← rest) then
    skip s.length
    return true
  else return false

/-- Go on behind a text, which must come next. -/
def expect (s : String) : Reading Unit := do
  if !(← accept s) then failure

end Reading

open Reading

/-- The text without the blanks and comments it starts with; a comment goes from a hash mark to the
end of the line. -/
def withoutComments : Nat → List Char → List Char
  | 0, s => s
  | fuel + 1, s =>
    match skipBlanks s with
    | '#' :: rest => withoutComments fuel (rest.dropWhile (· ≠ '\n'))
    | other => other

/-- Pass over blanks and comments where they mean nothing. -/
def skipIgnored (flags : Flags) : Reading Unit := do
  if flags.ignoreBlanks then
    modify fun p => { p with rest := withoutComments (p.rest.length + 1) p.rest }

/-- The next character, and what may be ignored behind it. -/
def nextSpaced (flags : Flags) : Reading Char := do
  let c ← next
  skipIgnored flags
  return c

/-- So many characters that pass a test, and what may be ignored behind each. -/
def exactly (flags : Flags) (test : Char → Bool) : Nat → Reading (List Char)
  | 0 => return []
  | n + 1 => do
    let c ← nextSpaced flags
    if !test c then failure
    return c :: (← exactly flags test n)

/-- The characters that pass a test up to the first that does not, and what may be ignored behind
each. -/
def asLongAs (flags : Flags) (test : Char → Bool) : Nat → Reading (List Char)
  | 0 => return []
  | fuel + 1 => do
    if (← peek).any test then
      let c ← nextSpaced flags
      return c :: (← asLongAs flags test fuel)
    else return []

/-- The characters that pass a test, as many as there are. -/
def spaced (flags : Flags) (test : Char → Bool) : Reading (List Char) := do
  asLongAs flags test (← rest).length

end Casebook.Pattern
