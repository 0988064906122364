import Casebook.Text.Split
import Casebook.Unicode.Grapheme
import Casebook.Unicode.Recent

/-!
# Texts between quotes

Messages that list names show each between double quotes, with escapes for quotes, backslashes and
characters that cannot be seen by themselves.
-/

namespace Casebook.Text

/-- The characters that can be seen by themselves: not blanks and controls, and not what belongs to
the character in front of it. -/
def visible : Unicode.CharSet :=
  (Unicode.CharSet.unionAll
    [Unicode.letter, Unicode.spacingMark, Unicode.number, Unicode.punctuation, Unicode.symbol,
     Unicode.recentVisible]).diff Unicode.graphemeExtend

/-- Whether a character can be seen by itself, or is a space. -/
def isVisible (c : Char) : Bool :=
  if c.toNat < 0x80 then 0x20 ≤ c.toNat && c.toNat ≠ 0x7F else visible.contains c

/-- A character inside quotes. -/
def quotedChar (c : Char) : List Char :=
  if c = '"' ∨ c = '\\' then ['\\', c]
  else if c = '\x00' then ['\\', '0']
  else if c = '\t' then ['\\', 't']
  else if c = '\r' then ['\\', 'r']
  else if c = '\n' then ['\\', 'n']
  else if isVisible c then [c]
  else ['\\', 'u', '\x7b'] ++ Nat.toDigits 16 c.toNat ++ ['\x7d']

/-- A text between quotes. -/
def quoted (s : String) : String :=
  String.ofList ('"' :: s.toList.flatMap quotedChar ++ ['"'])

/-- Texts between quotes, in square brackets. -/
def quotedList (ss : List String) : String :=
  "[" ++ join ", " (ss.map quoted) ++ "]"

end Casebook.Text
