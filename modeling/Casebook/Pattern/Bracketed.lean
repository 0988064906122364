import Casebook.Pattern.Escape

/-!
# Bracketed sets

A set between brackets lists characters, ranges, escapes, named sets and further bracketed sets. The
operations `&&`, `--` and `~~` take what was read before them and what follows up to the next
operation.
-/

namespace Casebook.Pattern

open Reading Unicode

/-! ## Members -/

/-- A member of a bracketed set: a character, or what an escape stands for. Characters are those
below U+0080 where the flags restrict patterns to them. -/
def setItem (flags : Flags) : Reading Escape := do
  let c ← next
  let item ← if c = '\\' then escape flags else pure (Escape.char c)
  match item with
  | .char c => if !flags.unicode ∧ 0x80 ≤ c.toNat then failure else return .char c
  | other => return other

/-- The character of an end of a range. -/
def rangeEnd : Escape → Reading Char
  | .char c => return c
  | _ => failure

/-- The set of one member. -/
def itemSet : Escape → Reading CharSet
  | .char c => return .single c
  | .set members => return members
  | .condition _ => failure

/-- The character that decides whether a hyphen makes a range: the first behind it that is no blank
and no mark of a comment, where these mean nothing. -/
def behindHyphen (flags : Flags) (s : List Char) : Option Char :=
  if flags.ignoreBlanks then
    match Text.skipBlanks s with
    | '#' :: comment => (Text.skipBlanks comment).head?
    | other => other.head?
  else s.head?

/-- A member or a range of characters. A hyphen in front of the closing bracket or of another
hyphen makes no range. -/
def setRange (flags : Flags) : Reading CharSet := do
  let low ← setItem flags
  skipIgnored flags
  match ← rest with
  | '-' :: behind =>
    if behindHyphen flags behind = some ']' ∨ behindHyphen flags behind = some '-' then
      itemSet low
    else
      let _ ← nextSpaced flags
      let high ← rangeEnd (← setItem flags)
      let low ← rangeEnd low
      if high < low then failure
      return .range low high
  | _ => itemSet low

/-- A set with a name between `[:` and `:]`, if one comes next. -/
def bracketNamed (flags : Flags) : Reading (Option CharSet) := do
  match ← rest with
  | '[' :: ':' :: inner =>
    let (negated, inner) :=
      match inner with
      | '^' :: inner => (true, inner)
      | inner => (false, inner)
    let name := inner.takeWhile (· ≠ ':')
    match inner.drop name.length, named? bracketNames (String.ofList name) with
    | ':' :: ']' :: after, some members =>
      goTo after
      return some (← negatedSet flags negated members)
    | _, _ => return none
  | _ => return none

/-! ## Sets -/

/-- The operations on sets, written by doubled characters. -/
def setOperation? : List Char → Option (CharSet → CharSet → CharSet)
  | '&' :: '&' :: _ => some CharSet.inter
  | '-' :: '-' :: _ => some CharSet.diff
  | '~' :: '~' :: _ => some CharSet.symmDiff
  | _ => none

/-- The members read so far, and how deeply each is nested. -/
structure Members where
  set : CharSet
  depths : List Nat

namespace Members

/-- No members. -/
def none : Members := ⟨.empty, []⟩

/-- One member more. -/
def push (m : Members) (set : CharSet) (depth : Nat) : Members :=
  ⟨m.set.union set, depth :: m.depths⟩

/-- The members as one operand. -/
def operand (m : Members) : Nested CharSet :=
  ⟨m.set, depthOfAll m.depths⟩

end Members

/-- What waits in front of the members being read: nothing, or an operation with its left
operand. -/
abbrev Pending := Option ((CharSet → CharSet → CharSet) × Nested CharSet)

/-- The operand that the members read so far make with what waits in front of them. -/
def Pending.close (flags : Flags) (pending : Pending) (members : Members) : Nested CharSet :=
  let right := members.operand
  match pending with
  | none => right
  | some (operation, left) =>
    ⟨operation (withCase flags left.value) (withCase flags right.value),
      max left.depth right.depth + 1⟩

/-- The hyphens a bracketed set starts with. -/
def leadingHyphens (flags : Flags) : Nat → Members → Reading Members
  | 0, members => return members
  | fuel + 1, members => do
    if (← peek) = some '-' then
      let _ ← nextSpaced flags
      leadingHyphens flags fuel (members.push (.single '-') 0)
    else return members

/-- The members that are read by position: hyphens at the start, or else a closing bracket there. -/
def leadingMembers (flags : Flags) : Reading Members := do
  let members ← leadingHyphens flags (← rest).length .none
  if members.depths = [] ∧ (← peek) = some ']' then
    let _ ← nextSpaced flags
    return members.push (.single ']') 0
  else return members

mutual

/-- A bracketed set, behind its opening bracket; `room` says how much deeper sets may be nested. -/
def bracketed : Nat → Nat → Flags → Reading (Nested CharSet)
  | 0, _, _ | _, 0, _ => failure
  | fuel + 1, room + 1, flags => do
    skipIgnored flags
    let negated ← accept "^"
    skipIgnored flags
    let operand ← setBody fuel room flags none (← leadingMembers flags)
    return ⟨← negatedSet flags negated operand.value, operand.depth + 1⟩

/-- The members of a bracketed set up to its closing bracket. -/
def setBody : Nat → Nat → Flags → Pending → Members → Reading (Nested CharSet)
  | 0, _, _, _, _ => failure
  | fuel + 1, room, flags, pending, members => do
    skipIgnored flags
    match setOperation? (← rest) with
    | some operation =>
      skip 2
      setBody fuel room flags (some (operation, pending.close flags members)) .none
    | none =>
      match ← peek with
      | none => failure
      | some ']' =>
        skip 1
        return pending.close flags members
      | some '[' =>
        match ← bracketNamed flags with
        | some named => setBody fuel room flags pending (members.push named 0)
        | none =>
          skip 1
          let inner ← bracketed fuel room flags
          setBody fuel room flags pending (members.push inner.value inner.depth)
      | some _ =>
        let item ← setRange flags
        setBody fuel room flags pending (members.push item 0)

end

end Casebook.Pattern
