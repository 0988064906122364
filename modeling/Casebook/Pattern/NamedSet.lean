import Casebook.Unicode.Category
import Casebook.Unicode.Casing
import Casebook.Unicode.Lookup

/-!
# Sets with names in patterns

The sets that a letter behind a backslash stands for, and those with a name between `[:` and `:]`.
-/

namespace Casebook.Pattern

open Unicode

/-- Characters of words: letters, marks, digits, connectors and joiners. -/
def wordSet : CharSet :=
  .unionAll [alphabetic, mark, decimalNumber, connectorPunctuation, joinControl]

/-- Characters of words below U+0080. -/
def asciiWordSet : CharSet := .ofRows ["30-39 41-5A 5F 61-7A"]

/-- Digits below U+0080. -/
def asciiDigitSet : CharSet := .ofRows ["30-39"]

/-- Blanks below U+0080. -/
def asciiBlankSet : CharSet := .ofRows ["9-D 20"]

/-- The sets with a name between `[:` and `:]`, all below U+0080. -/
def bracketNames : List (List String × CharSet) :=
  [(["alnum"], .ofRows ["30-39 41-5A 61-7A"]), (["alpha"], .ofRows ["41-5A 61-7A"]),
   (["ascii"], ascii), (["blank"], .ofRows ["9 20"]), (["cntrl"], .ofRows ["0-1F 7F"]),
   (["digit"], asciiDigitSet), (["graph"], .ofRows ["21-7E"]), (["lower"], .ofRows ["61-7A"]),
   (["print"], .ofRows ["20-7E"]), (["punct"], .ofRows ["21-2F 3A-40 5B-60 7B-7E"]),
   (["space"], asciiBlankSet), (["upper"], .ofRows ["41-5A"]), (["word"], asciiWordSet),
   (["xdigit"], .ofRows ["30-39 41-46 61-66"])]

end Casebook.Pattern
