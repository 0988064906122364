import Casebook.Unicode.Casing
import Casebook.Unicode.Emoji
import Casebook.Unicode.Grapheme
import Casebook.Unicode.Ideograph
import Casebook.Unicode.Script

/-!
# Graphemes, words and sentences

The classes of characters that decide where a grapheme, a word or a sentence may end, by their names
in small letters and without blanks, hyphens and underscores.
-/

namespace Casebook.Unicode

/-- One code point. -/
private def the (n : Nat) : CharSet := .ofRanges [(n, n)]

/-! ## Graphemes -/

/-- Characters that extend the grapheme in front of them, a joiner among them. -/
def extending : CharSet := .unionAll [graphemeExtend, emojiModifier]

/-- The classes of characters in graphemes. -/
def graphemeClasses : List (List String × CharSet) :=
  [(["cr"], the 0xD), (["lf"], the 0xA), (["zwj"], the 0x200D),
   (["cn", "control"],
    (CharSet.unionAll
      [lineSeparator, paragraphSeparator, control, format, unassigned.inter defaultIgnorable]).diff
      (.unionAll [the 0xD, the 0xA, the 0x200D, prependedConcatenationMark, extending])),
   (["ex", "extend"], extending.diff (the 0x200D)),
   (["ri", "regionalindicator"], regionalIndicator),
   (["pp", "prepend"], prependedConcatenationMark.union prefixedConsonant),
   (["sm", "spacingmark"],
    (spacingMark.diff (extending.union freestandingMark)).union (.ofRows ["E33 EB3"])),
   (["l"], leadingJamo), (["v"], vowelJamo), (["t"], trailingJamo), (["lv"], openSyllable),
   (["lvt"], closedSyllable)]

/-! ## Words -/

/-- Signs of numbers that are no digits. -/
def numberSign : CharSet := .ofRows ["600-605 66B 6DD 890-891 8E2 110BD 110CD"]

/-- Letters of words that are not alphabetic. -/
def otherWordLetter : CharSet := .ofRows
  ["2C2-2C5 2D2-2D7 2DE-2DF 2E5-2EB 2ED 2EF-2FF 55A-55C 55E 58A 5F3 70F A708-A716 A720-A721",
   "A789-A78A AB5B"]

/-- Letters of scripts that are written without blanks between words. -/
def complexContext : CharSet := .ofRows
  ["E01-E3A E40-E46 E4D E81-E82 E84 E86-E8A E8C-EA3 EA5 EA7-EB9 EBB-EBD EC0-EC4 EC6 ECD EDC-EDF",
   "1000-1036 1038 103B-103F 1050-108F 109A-109D 1780-17B3 17B6-17C8 17D7 17DC 1950-196D",
   "1970-1974 1980-19AB 19B0-19C9 1A20-1A5E 1A61-1A74 1AA7 A9E0-A9EF A9FA-A9FE AA60-AA76",
   "AA7A-AABE AAC0 AAC2 AADB-AADD 11700-1171A 1171D-1172A 11740-11746"]

/-- Punctuation in the middle of numbers. -/
def middleOfNumber : CharSet := .ofRows
  ["2C 3B 37E 589 60C-60D 66C 7F8 2044 FE10 FE14 FE50 FE54 FF0C FF1B"]

/-- Spaces at which no line ends. -/
def noBreakSpace : CharSet := .ofRows ["A0 2007 202F"]

/-- Letters of Katakana, and the signs that stand among them. -/
def katakanaLetter : CharSet := .unionAll [katakana, .ofRows ["3031-3035 309B-309C 30A0 30FC FF70"]]

/-- Letters of Hebrew. -/
def hebrewLetter : CharSet := hebrew.inter otherLetter

/-- Characters that belong to the letter in front of them. -/
def attachedToWord : CharSet :=
  (CharSet.unionAll [graphemeExtend, spacingMark, emojiModifier]).diff (the 0x200D)

/-- The classes of characters in words. -/
def wordClasses : List (List String × CharSet) :=
  [(["cr"], the 0xD), (["lf"], the 0xA), (["nl", "newline"], .ofRows ["B-C 85 2028-2029"]),
   (["zwj"], the 0x200D), (["ri", "regionalindicator"], regionalIndicator),
   (["ka", "katakana"], katakanaLetter), (["hl", "hebrewletter"], hebrewLetter),
   (["extend"], attachedToWord),
   (["fo", "format"],
    format.diff (.unionAll [.ofRows ["200B-200D"], attachedToWord, prependedConcatenationMark])),
   (["nu", "numeric"], decimalNumber.union numberSign),
   (["le", "aletter"],
    (alphabetic.union otherWordLetter).diff
      (.unionAll
        [ideographic, katakanaLetter, complexContext, hiragana, attachedToWord, hebrewLetter])),
   (["ml", "midletter"], .ofRows ["3A B7 387 55F 5F4 2027 FE13 FE55 FF1A"]),
   (["mn", "midnum"], middleOfNumber),
   (["mb", "midnumlet"], .ofRows ["2E 2018-2019 2024 FE52 FF07 FF0E"]),
   (["ex", "extendnumlet"], connectorPunctuation.union (the 0x202F)),
   (["wsegspace"], spaceSeparator.diff noBreakSpace), (["sq", "singlequote"], the 0x27),
   (["dq", "doublequote"], the 0x22)]

/-! ## Sentences -/

/-- Punctuation that ends a sentence. -/
def sentenceTerminal : CharSet := .ofRows
  ["21 2E 3F 589 61D-61F 6D4 700-702 7F9 837 839 83D-83E 964-965 104A-104B 1362 1367-1368 166E",
   "1735-1736 17D4-17D5 1803 1809 1944-1945 1AA8-1AAB 1B4E-1B4F 1B5A-1B5B 1B5E-1B5F 1B7D-1B7F",
   "1C3B-1C3C 1C7E-1C7F 2024 203C-203D 2047-2049 2CF9-2CFB 2E2E 2E3C 2E53-2E54 3002 A4FF",
   "A60E-A60F A6F3 A6F7 A876-A877 A8CE-A8CF A92F A9C8-A9C9 AA5D-AA5F AAF0-AAF1 ABEB FE12",
   "FE15-FE16 FE52 FE56-FE57 FF01 FF0E FF1F FF61 10A56-10A57 10F55-10F59 10F86-10F89 11047-11048",
   "110BE-110C1 11141-11143 111C5-111C6 111CD 111DE-111DF 11238-11239 1123B-1123C 112A9",
   "113D4-113D5 1144B-1144C 115C2-115C3 115C9-115D7 11641-11642 1173C-1173E 11944 11946",
   "11A42-11A43 11A9B-11A9C 11C41-11C42 11EF7-11EF8 11F43-11F44 16A6E-16A6F 16AF5 16B37-16B38",
   "16B44 16D6E-16D6F 16E98 1BC9F 1DA88"]

/-- Full stops, which may also end an abbreviation. -/
def fullStop : CharSet := .ofRows ["2E 2024 FE52 FF0E"]

/-- Quotation marks that neither open nor close. -/
def quotationSign : CharSet := .ofRows ["22 27 275B-2760 2E00-2E01 2E06-2E08 2E0B 1F676-1F678"]

/-- Punctuation after which a sentence goes on. -/
def sentenceContinue : CharSet := .ofRows
  ["2C-2D 3A-3B 37E 55D 60C-60D 7F8 1802 1808 2013-2014 3001 FE10-FE11 FE13-FE14 FE31-FE32",
   "FE50-FE51 FE54-FE55 FE58 FE63 FF0C-FF0D FF1A-FF1B FF64"]

/-- Letters of Georgian that have a case without beginning or continuing by it. -/
def georgianLetter : CharSet := .ofRows ["10D0-10FA 10FD-10FF"]

/-- Capitals of Georgian, which begin no sentence. -/
def georgianCapital : CharSet := .ofRows ["1C90-1CBA 1CBD-1CBF"]

/-- Characters that belong to the character in front of them in a sentence. -/
def attachedToSentence : CharSet := .unionAll [graphemeExtend, spacingMark, the 0x200D]

/-- Lowercase letters of sentences. -/
def sentenceLower : CharSet := lowercase.diff (graphemeExtend.union georgianLetter)

/-- Uppercase letters of sentences. -/
def sentenceUpper : CharSet := (titlecaseLetter.union uppercase).diff georgianCapital

/-- The classes of characters in sentences. -/
def sentenceClasses : List (List String × CharSet) :=
  [(["cr"], the 0xD), (["lf"], the 0xA), (["se", "sep"], .ofRows ["85 2028-2029"]),
   (["ex", "extend"], attachedToSentence),
   (["fo", "format"],
    format.diff (.unionAll [.ofRows ["200C-200D"], attachedToSentence, numberSign])),
   (["sp"], .ofRows ["9 B-C 20 A0 1680 2000-200A 202F 205F 3000"]),
   (["lo", "lower"], sentenceLower), (["up", "upper"], sentenceUpper),
   (["le", "oletter"],
    (alphabetic.union (the 0x5F3)).diff
      (.unionAll [sentenceLower, sentenceUpper, attachedToSentence])),
   (["nu", "numeric"], .unionAll [decimalNumber, numberSign, the 0x66C]),
   (["at", "aterm"], fullStop), (["st", "sterm"], sentenceTerminal.diff fullStop),
   (["cl", "close"],
    .unionAll
      [openPunctuation, closePunctuation, initialPunctuation, finalPunctuation, quotationSign]),
   (["sc", "scontinue"], sentenceContinue)]

end Casebook.Unicode
