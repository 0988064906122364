import Casebook.Text.Blank
import Casebook.Unicode.Casing
import Casebook.Unicode.Recent

/-!
# Words

Names in templates are words: runs of letters, numbers and underscores, in every script.
-/

namespace Casebook.Text

/-- Whether a character is alphabetic. -/
def isAlphabetic (c : Char) : Bool :=
  if c.toNat < 0x80 then c.isAlpha
  else Unicode.alphabetic.contains c || Unicode.recentAlphabetic.contains c

/-- Whether a character is alphabetic or a number of any kind. -/
def isAlphanumeric (c : Char) : Bool :=
  if c.toNat < 0x80 then c.isAlphanum
  else isAlphabetic c || Unicode.number.contains c || Unicode.recentNumber.contains c

/-- Whether a character may stand in a word. -/
def isWord (c : Char) : Bool :=
  isAlphanumeric c || c == '_'

/-- The longest word a text begins with, and the text after it. -/
def word (s : List Char) : List Char × List Char :=
  (s.takeWhile isWord, s.dropWhile isWord)

/-! ## Laws -/

@[simp] theorem word_append (s : List Char) : (word s).1 ++ (word s).2 = s :=
  List.takeWhile_append_dropWhile

theorem isWord_of_mem_word {s : List Char} {c : Char} (h : c ∈ (word s).1) : isWord c = true :=
  List.all_eq_true.mp (List.all_takeWhile (p := isWord) (l := s)) c h

theorem length_word_le (s : List Char) : (word s).2.length ≤ s.length :=
  (List.dropWhile_sublist isWord).length_le

end Casebook.Text
