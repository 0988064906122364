import Casebook.Yaml.Lexer
import Casebook.Yaml.Node
import Casebook.Yaml.Typing

/-!
# YAML documents

A text that is one YAML document is read as a value. Keys are the texts of scalars, whatever
their type would be; of two equal keys the later stays. Collections nest at most 128 deep, and
aliases are followed at most a hundred times as often as the document is large, so that no small
document makes a huge value.
-/

namespace Casebook.Yaml

/-- How deep collections may nest. -/
def depthLimit : Nat := 128

/-- How often aliases are followed, in proportion to the size of a document. -/
def aliasFactor : Nat := 100

/-- The anchored nodes of a document. -/
structure Anchors where
  nodes : List (Nat × Node)

namespace Anchors

/-- The node of an anchor; of nodes with one number the last. -/
def find? (a : Anchors) (number : Nat) : Option Node :=
  (a.nodes.reverse.find? fun entry => entry.1 = number).map Prod.snd

end Anchors

/-- A computation that fails, or follows aliases as often as is left. -/
abbrev Following (α : Type) := StateT Nat Option α

/-- The node that a node stands for. -/
def follow (anchors : Anchors) (n : Node) : Following Node := do
  match n with
  | .aliasOf number =>
    match ← get, anchors.find? number with
    | left + 1, some target =>
      set left
      return target
    | _, _ => failure
  | other => return other

/-- Whether a tag asks for a type that no value has: it starts with an exclamation mark and is a
text. -/
def isForeign (tag : Option Tag) : Bool :=
  tag.any fun t => t.isLocal && t.text?.isSome

/-- The value of a scalar that no tag gives a type. -/
def untaggedValue? (isPlain : Bool) (text : String) : Option Value :=
  if isPlain then plainValue? text else some (.string text)

/-- The value of a scalar; a tag that starts with an exclamation mark and is no text counts as
none. -/
def scalarValue? (tag : Option Tag) (isPlain : Bool) (text : String) : Option Value :=
  if isForeign tag then none
  else
    match tag.filter fun t => !t.isLocal with
    | some t =>
      match TypeTag.ofTag? t with
      | some type => type.value? text
      | none => some (.string text)
    | none => untaggedValue? isPlain text

/-- The text of a key. -/
def keyText (anchors : Anchors) (n : Node) : Following String := do
  match ← follow anchors n with
  | .scalar _ _ text => return text
  | _ => failure

/-- The value of a node, whose collections may nest so deep. -/
def valueOf (anchors : Anchors) : Nat → Node → Following Value
  | 0, n => do
    match ← follow anchors n with
    | .scalar p isPlain text => StateT.lift (scalarValue? p.tag isPlain text)
    | _ => failure
  | depth + 1, n => do
    match ← follow anchors n with
    | .scalar p isPlain text => StateT.lift (scalarValue? p.tag isPlain text)
    | .sequence p items =>
      if isForeign p.tag then failure
      return .array (← items.mapM (valueOf anchors depth))
    | .mapping p entries =>
      if isForeign p.tag then failure
      let entries ← entries.mapM fun entry => do
        let key ← keyText anchors entry.1
        return (key, ← valueOf anchors depth entry.2)
      return .object (Dict.ofList entries)
    | .aliasOf _ => failure

/-- The value that a text is in YAML; none if it is not one document that has a value. -/
def read? (text : String) : Option Value := do
  let root ← Node.ofTokens? (← Token.ofText? text.toList)
  let (v, _) ← (valueOf ⟨root.anchored⟩ depthLimit root).run (aliasFactor * root.size)
  return v

end Casebook.Yaml
