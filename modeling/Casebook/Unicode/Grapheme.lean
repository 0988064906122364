import Casebook.Unicode.Category

/-!
# Graphemes

What a reader takes for one character: characters that stand by themselves, and those that belong to
their neighbours.
-/

namespace Casebook.Unicode

/-- Variation selectors. -/
def variationSelector : CharSet := .ofRows ["180B-180D 180F FE00-FE0F E0100-E01EF"]

/-- Marks that enclose the digits behind them. -/
def prependedConcatenationMark : CharSet := .ofRows ["600-605 6DD 70F 890-891 8E2 110BD 110CD"]

/-- Characters without a shape that are neither format characters nor variation selectors. -/
def otherDefaultIgnorable : CharSet := .ofRows
  ["34F 115F-1160 17B4-17B5 2065 3164 FFA0 FFF0-FFF8 E0000 E0002-E001F E0080-E00FF E01F0-E0FFF"]

/-- Format characters that have a shape. -/
def visibleFormat : CharSet := .ofRows ["FFF9-FFFB 13430-13440"]

/-- Characters that are not shown where a font does not know them. -/
def defaultIgnorable : CharSet :=
  (CharSet.unionAll [otherDefaultIgnorable, format, variationSelector]).diff
    (visibleFormat.union prependedConcatenationMark)

/-- Spacing marks and others that belong to the character in front of them. -/
def otherGraphemeExtend : CharSet := .ofRows
  ["9BE 9D7 B3E B57 BBE BD7 CC0 CC2 CC7-CC8 CCA-CCB CD5-CD6 D3E D57 DCF DDF 1715 1734 1B35 1B3B",
   "1B3D 1B43-1B44 1BAA 1BF2-1BF3 200C 302E-302F A953 A9C0 FF9E-FF9F 111C0 11235 1133E 1134D",
   "11357 113B8 113C2 113C5 113C7-113C9 113CF 114B0 114BD 115AF 116B6 11930 1193D 11F41",
   "16FF0-16FF1 1D165-1D166 1D16D-1D172 E0020-E007F"]

/-- Characters that belong to the character in front of them. -/
def graphemeExtend : CharSet := .unionAll [nonspacingMark, enclosingMark, otherGraphemeExtend]

/-- Characters that can stand by themselves. -/
def graphemeBase : CharSet :=
  (CharSet.unionAll
    [control, format, privateUse, unassigned, lineSeparator, paragraphSeparator,
     graphemeExtend]).compl

/-- Signs that join the letters around them. -/
def graphemeLink : CharSet := .ofRows
  ["94D 9CD A4D ACD B4D BCD C4D CCD D3B-D3C D4D DCA E3A EBA F84 1039-103A 1714-1715 1734 17D2",
   "1A60 1B44 1BAA-1BAB 1BF2-1BF3 2D7F A806 A82C A8C4 A953 A9C0 AAF6 ABED 10A3F 11046 11070 1107F",
   "110B9 11133-11134 111C0 11235 112EA 1134D 113CE-113D0 11442 114C2 115BF 1163F 116B6 1172B",
   "11839 1193D-1193E 119E0 11A34 11A47 11A99 11C3F 11D44-11D45 11D97 11F41-11F42 1612F"]

/-- Consonants a syllable of Hangul begins with. -/
def leadingJamo : CharSet := .ofRows ["1100-115F A960-A97C"]

/-- Vowels of syllables of Hangul, and those that take part in syllables alike. -/
def vowelJamo : CharSet := .ofRows ["1160-11A7 D7B0-D7C6 16D63 16D67-16D6A"]

/-- Consonants a syllable of Hangul ends with. -/
def trailingJamo : CharSet := .ofRows ["11A8-11FF D7CB-D7FB"]

/-- Syllables of Hangul without a consonant at the end: one in twenty-eight. -/
def openSyllable : CharSet :=
  .ofRanges ((List.range 399).map fun i => (0xAC00 + 28 * i, 0xAC00 + 28 * i))

/-- Syllables of Hangul with a consonant at the end. -/
def closedSyllable : CharSet := (CharSet.ofRows ["AC00-D7A3"]).diff openSyllable

/-- Consonants that belong to the character behind them. -/
def prefixedConsonant : CharSet := .ofRows
  ["D4E 111C2-111C3 113D1 1193F 11941 11A3A 11A84-11A89 11D46 11F02"]

/-- Spacing marks that do not belong to the character in front of them. -/
def freestandingMark : CharSet := .ofRows
  ["102B-102C 1038 1062-1064 1067-106D 1083 1087-108C 108F 109A-109C 1A61 1A63-1A64 AA7B AA7D",
   "11720-11721"]

end Casebook.Unicode
