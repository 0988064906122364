import Casebook.Unicode.Letter
import Casebook.Unicode.Mark
import Casebook.Unicode.Numeric
import Casebook.Unicode.Punctuation
import Casebook.Unicode.Separator
import Casebook.Unicode.Symbol

/-!
# Categories

The category of a character says what kind of letter, mark, number, punctuation, symbol or separator
it is. Wider categories are unions.
-/

namespace Casebook.Unicode

/-- Letters. -/
def letter : CharSet :=
  .unionAll [uppercaseLetter, lowercaseLetter, titlecaseLetter, modifierLetter, otherLetter]

/-- Letters that have a case. -/
def casedLetter : CharSet := .unionAll [uppercaseLetter, lowercaseLetter, titlecaseLetter]

/-- Combining marks. -/
def mark : CharSet := .unionAll [nonspacingMark, spacingMark, enclosingMark]

/-- Numbers. -/
def number : CharSet := .unionAll [decimalNumber, letterNumber, otherNumber]

/-- Punctuation. -/
def punctuation : CharSet :=
  .unionAll [connectorPunctuation, dashPunctuation, openPunctuation, closePunctuation,
    initialPunctuation, finalPunctuation, otherPunctuation]

/-- Symbols. -/
def symbol : CharSet := .unionAll [mathSymbol, currencySymbol, modifierSymbol, otherSymbol]

/-- Separators. -/
def separator : CharSet := .unionAll [spaceSeparator, lineSeparator, paragraphSeparator]

/-- Characters that have a category of their own. -/
def assigned : CharSet :=
  .unionAll [letter, mark, number, punctuation, symbol, separator, control, format, privateUse]

/-- Characters without a category of their own. -/
def unassigned : CharSet := assigned.compl

/-- Controls, format characters, private use and what is not assigned. -/
def other : CharSet := .unionAll [control, format, privateUse, unassigned]

/-- The characters below U+0080. -/
def ascii : CharSet := .ofRows ["0-7F"]

/-- The categories by their names, in small letters and without blanks, hyphens and underscores. -/
def categories : List (List String × CharSet) :=
  [(["any"], .all), (["assigned"], assigned), (["ascii"], ascii), (["l", "letter"], letter),
   (["lc", "casedletter"], casedLetter), (["lu", "uppercaseletter"], uppercaseLetter),
   (["ll", "lowercaseletter"], lowercaseLetter), (["lt", "titlecaseletter"], titlecaseLetter),
   (["lm", "modifierletter"], modifierLetter), (["lo", "otherletter"], otherLetter),
   (["m", "mark", "combiningmark"], mark), (["mn", "nonspacingmark"], nonspacingMark),
   (["mc", "spacingmark"], spacingMark), (["me", "enclosingmark"], enclosingMark),
   (["n", "number"], number), (["nd", "decimalnumber", "digit"], decimalNumber),
   (["nl", "letternumber"], letterNumber), (["no", "othernumber"], otherNumber),
   (["p", "punctuation", "punct"], punctuation),
   (["pc", "connectorpunctuation"], connectorPunctuation),
   (["pd", "dashpunctuation"], dashPunctuation), (["ps", "openpunctuation"], openPunctuation),
   (["pe", "closepunctuation"], closePunctuation),
   (["pi", "initialpunctuation"], initialPunctuation),
   (["pf", "finalpunctuation"], finalPunctuation), (["po", "otherpunctuation"], otherPunctuation),
   (["s", "symbol"], symbol), (["sm", "mathsymbol"], mathSymbol),
   (["sc", "currencysymbol"], currencySymbol), (["sk", "modifiersymbol"], modifierSymbol),
   (["so", "othersymbol"], otherSymbol), (["z", "separator"], separator),
   (["zs", "spaceseparator"], spaceSeparator), (["zl", "lineseparator"], lineSeparator),
   (["zp", "paragraphseparator"], paragraphSeparator), (["c", "other"], other),
   (["cc", "control", "cntrl"], control), (["cf", "format"], format),
   (["co", "privateuse"], privateUse), (["cn", "unassigned"], unassigned)]

end Casebook.Unicode
