import Casebook.Decimal.Reading
import Casebook.Pattern.NamedSet
import Casebook.Pattern.Reader
import Casebook.Pattern.Regex
import Casebook.Unicode.Folding

/-!
# Escapes in patterns

A backslash makes the character behind it stand for itself, or stands together with what follows
for a character by its number, a set or a condition.
-/

namespace Casebook.Pattern

open Reading Text Unicode

/-- What an escape stands for. -/
inductive Escape where
  | char (c : Char)
  | set (members : CharSet)
  | condition (c : Condition)

/-- A set closed under changes of case where the flags ignore case. -/
def withCase (flags : Flags) (members : CharSet) : CharSet :=
  if !flags.ignoreCase then members
  else if flags.unicode then members.ignoringCase
  else members.ignoringAsciiCase

/-- A set closed under changes of case, then complemented if so asked. Where the flags restrict sets
to the characters below U+0080, the result must not leave them. -/
def negatedSet (flags : Flags) (negated : Bool) (members : CharSet) : Reading CharSet := do
  let members := withCase flags members
  let members := if negated then members.compl else members
  if !flags.unicode ∧ !(members.diff ascii).isEmpty then failure
  return members

/-! ## Numbers -/

/-- A character by its number, which must not be a surrogate. -/
def charOfNat? (n : Nat) : Option Char :=
  if n < 0xD800 ∨ (0xDFFF < n ∧ n < 0x110000) then some (Char.ofNat n) else none

/-- Whether a character is a hexadecimal digit. -/
def isHexDigit (c : Char) : Bool :=
  asciiHexDigit.contains c

/-- A character by its hexadecimal number: so many digits, or any number of them in braces; and
whether there were braces. -/
def hexadecimal (flags : Flags) (digits : Nat) : Reading (Char × Bool) := do
  skipIgnored flags
  let braced := (← peek) = some '\x7b'
  let ds ←
    if braced then
      let _ ← nextSpaced flags
      let ds ← spaced flags isHexDigit
      if ds = [] ∨ (← nextSpaced flags) ≠ '\x7d' then failure
      pure ds
    else exactly flags isHexDigit digits
  let c ← (Decimal.natOfDigitsBase 16 ds).bind charOfNat?
  return (c, braced)

/-- A character by its two hexadecimal digits, which stand for a single byte where patterns are not
read as text, or by any number of them in braces. -/
def hexadecimalByte (flags : Flags) : Reading Char := do
  let (c, braced) ← hexadecimal flags 2
  if !flags.unicode ∧ !braced ∧ 0x80 ≤ c.toNat then failure
  return c

/-! ## Properties -/

/-- The parts of a text in front of the first two characters that come one after the other, and
behind them. -/
def splitAtPair? (a b : Char) : List Char → Option (List Char × List Char)
  | x :: y :: rest =>
    if x = a ∧ y = b then some ([], rest)
    else (splitAtPair? a b (y :: rest)).map fun parts => (x :: parts.1, parts.2)
  | _ => none

/-- The set of a property by its name in braces: a name alone, or a property with its value behind
a colon or an equals sign. With `!=` in between the set is meant to be complemented. -/
def propertyNamed (name : List Char) : Reading (CharSet × Bool) :=
  match splitAtPair? '!' '=' name, splitOnce? ':' name, splitOnce? '=' name with
  | some (property, value), _, _ => do return (← setWithValue? property value, true)
  | none, some (property, value), _
  | none, none, some (property, value) => do return (← setWithValue? property value, false)
  | none, none, none => do return (← setNamed? name, false)

/-- The set of a property, behind the letter that announces it: one letter, or a name in braces. -/
def propertySet (flags : Flags) (negated : Bool) : Reading CharSet := do
  if !flags.unicode then failure
  skipIgnored flags
  let c ← nextSpaced flags
  let (members, unequal) ←
    if c = '\x7b' then
      let name ← spaced flags (· ≠ '\x7d')
      expect "\x7d"
      propertyNamed name
    else do pure (← setNamed? [c], false)
  negatedSet flags (negated != unequal) members

/-! ## Words -/

/-- The characters of words under the flags. -/
def wordSetUnder (flags : Flags) : CharSet :=
  if flags.unicode then wordSet else asciiWordSet

/-- The set of a one-letter class, which must not leave the characters below U+0080 where
the flags restrict patterns to those. -/
def letterSet (flags : Flags) (c : Char) : Option CharSet :=
  let members : CharSet :=
    match c.toLower with
    | 'd' => if flags.unicode then decimalNumber else asciiDigitSet
    | 's' => if flags.unicode then whiteSpace else asciiBlankSet
    | _ => wordSetUnder flags
  if c.isLower then some members
  else if flags.unicode then some members.compl
  else none

/-- The special word boundaries in braces; braces that hold no name are left for a repetition. -/
def specialBoundary (flags : Flags) : Reading (Option Condition) := do
  let start ← rest
  let _ ← nextSpaced flags
  let name ← spaced flags fun c => c.isAlpha || c = '-'
  if name = [] then
    if (← peek).isNone then failure
    goTo start
    return none
  expect "\x7d"
  match String.ofList name with
  | "start" => return some (.wordStart (wordSetUnder flags))
  | "end" => return some (.wordEnd (wordSetUnder flags))
  | "start-half" => return some (.wordStartHalf (wordSetUnder flags))
  | "end-half" => return some (.wordEndHalf (wordSetUnder flags))
  | _ => failure

/-- A word boundary, behind its letter. -/
def boundary (flags : Flags) : Reading Condition := do
  let plain := Condition.wordBoundary (wordSetUnder flags)
  if (← peek) = some '\x7b' then return (← specialBoundary flags).getD plain
  else return plain

/-! ## Escapes -/

/-- Whether an escaped character always stands for itself. -/
def isEscapable (c : Char) : Bool :=
  c.toNat < 0x80 && !c.isAlphanum && c ≠ '<' && c ≠ '>'

/-- What follows a backslash. -/
def escape (flags : Flags) : Reading Escape := do
  let c ← next
  if isEscapable c then return .char c
  match c with
  | 'x' => return .char (← hexadecimalByte flags)
  | 'u' => return .char (← hexadecimal flags 4).1
  | 'U' => return .char (← hexadecimal flags 8).1
  | 'p' | 'P' => return .set (← propertySet flags (c = 'P'))
  | 'd' | 's' | 'w' | 'D' | 'S' | 'W' => return .set (← letterSet flags c)
  | 'a' => return .char '\x07'
  | 'f' => return .char '\x0c'
  | 't' => return .char '\t'
  | 'n' => return .char '\n'
  | 'r' => return .char '\r'
  | 'v' => return .char '\x0b'
  | 'A' => return .condition .textStart
  | 'z' => return .condition .textEnd
  | 'b' => return .condition (← boundary flags)
  | 'B' => return .condition (.notWordBoundary (wordSetUnder flags))
  | '<' => return .condition (.wordStart (wordSetUnder flags))
  | '>' => return .condition (.wordEnd (wordSetUnder flags))
  | _ => failure

end Casebook.Pattern
