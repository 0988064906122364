import Casebook.Unicode.CharSet

/-!
# Separators and controls

The three categories of separators, and the categories of characters without a shape.
-/

namespace Casebook.Unicode

/-- The characters of the category space separator. -/
def spaceSeparator : CharSet := .ofRows ["20 A0 1680 2000-200A 202F 205F 3000"]

/-- The characters of the category line separator. -/
def lineSeparator : CharSet := .ofRows ["2028"]

/-- The characters of the category paragraph separator. -/
def paragraphSeparator : CharSet := .ofRows ["2029"]

/-- The characters of the category control. -/
def control : CharSet := .ofRows ["0-1F 7F-9F"]

/-- The characters of the category format. -/
def format : CharSet := .ofRows
  ["AD 600-605 61C 6DD 70F 890-891 8E2 180E 200B-200F 202A-202E 2060-2064 2066-206F FEFF",
   "FFF9-FFFB 110BD 110CD 13430-1343F 1BCA0-1BCA3 1D173-1D17A E0001 E0020-E007F"]

/-- The characters of the category private use. -/
def privateUse : CharSet := .ofRows ["E000-F8FF F0000-FFFFD 100000-10FFFD"]

end Casebook.Unicode
