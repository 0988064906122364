import Casebook.Unicode.Category

/-!
# Identifiers

The characters that identifiers start with and go on with, and the marks that no identifier holds.
-/

namespace Casebook.Unicode

/-- Characters that notations use as marks. -/
def patternSyntax : CharSet := .ofRows
  ["21-2F 3A-40 5B-5E 60 7B-7E A1-A7 A9 AB-AC AE B0-B1 B6 BB BF D7 F7 2010-2027 2030-203E",
   "2041-2053 2055-205E 2190-245F 2500-2775 2794-2BFF 2E00-2E7F 3001-3003 3008-3020 3030",
   "FD3E-FD3F FE45-FE46"]

/-- Blanks of notations. -/
def patternWhiteSpace : CharSet := .ofRows ["9-D 20 85 200E-200F 2028-2029"]

/-- Marks and blanks of notations, which no identifier holds. -/
def patternMark : CharSet := patternSyntax.union patternWhiteSpace

/-- Characters that start identifiers by exception. -/
def otherIdStart : CharSet := .ofRows ["1885-1886 2118 212E 309B-309C"]

/-- Characters that continue identifiers by exception. -/
def otherIdContinue : CharSet := .ofRows ["B7 387 1369-1371 19DA 200C-200D 30FB FF65"]

/-- Characters that an identifier may start with. -/
def idStart : CharSet := (CharSet.unionAll [letter, letterNumber, otherIdStart]).diff patternMark

/-- Characters that an identifier may hold. -/
def idContinue : CharSet :=
  (CharSet.unionAll
    [idStart, nonspacingMark, spacingMark, decimalNumber, connectorPunctuation,
     otherIdContinue]).diff patternMark

/-- Starts of identifiers that normalization may turn into something else. -/
def unstableIdStart : CharSet := .ofRows
  ["37A E33 EB3 309B-309C FC5E-FC63 FDFA-FDFB FE70-FE7E/2 FF9E-FF9F"]

/-- Parts of identifiers that normalization may turn into something else. -/
def unstableIdContinue : CharSet := .ofRows ["37A 309B-309C FC5E-FC63 FDFA-FDFB FE70-FE7E/2"]

/-- Characters that an identifier may start with, before and after normalization. -/
def xidStart : CharSet := idStart.diff unstableIdStart

/-- Characters that an identifier may hold, before and after normalization. -/
def xidContinue : CharSet := idContinue.diff unstableIdContinue

/-- Mathematical signs that an identifier may start with. -/
def idCompatMathStart : CharSet := .ofRows
  ["2202 2207 221E 1D6C1 1D6DB 1D6FB 1D715 1D735 1D74F 1D76F 1D789 1D7A9 1D7C3"]

/-- Mathematical signs that an identifier may hold. -/
def idCompatMathContinue : CharSet :=
  idCompatMathStart.union (.ofRows ["B2-B3 B9 2070 2074-207E 2080-208E"])

end Casebook.Unicode
