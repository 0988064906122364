/-!
# YAML tokens

A text is cut into the tokens of the YAML 1.1 grammar. The tokens in front of a key and around an
indented collection have no characters of their own: they follow from the layout.
-/

namespace Casebook.Yaml

/-- A tag written out: the bytes that its characters and escapes stand for. Escapes may stand for
bytes that are no text. -/
structure Tag where
  octets : List UInt8
  deriving DecidableEq, Inhabited

namespace Tag

/-- The tag that a text is. -/
def ofString (s : String) : Tag :=
  ⟨s.toUTF8.data.toList⟩

/-- The text of a tag, if it is one. -/
def text? (t : Tag) : Option String :=
  String.fromUTF8? ⟨t.octets.toArray⟩

/-- A tag that starts with another. -/
def append (start suffix : Tag) : Tag :=
  ⟨start.octets ++ suffix.octets⟩

/-- Whether a tag starts with an exclamation mark. -/
def isLocal (t : Tag) : Bool :=
  t.octets.head? = some '!'.toUInt8

end Tag

/-- A piece of a YAML text. -/
inductive Token where
  | versionDirective (major minor : Nat)
  | tagDirective (handle : String) (start : Tag)
  | documentStart
  | documentEnd
  | blockSequenceStart
  | blockMappingStart
  /-- The end of an indented collection. -/
  | blockEnd
  | flowSequenceStart
  | flowSequenceEnd
  | flowMappingStart
  | flowMappingEnd
  | blockEntry
  | flowEntry
  | key
  | value
  | alias (name : String)
  | anchor (name : String)
  | tag (handle : String) (suffix : Tag)
  | scalar (isPlain : Bool) (text : String)
  deriving DecidableEq, Inhabited

end Casebook.Yaml
