import Casebook.Dict
import Casebook.Yaml.Token

/-!
# YAML nodes

The tokens of a document make a tree of scalars, sequences and mappings. A node may carry an anchor
and a tag, and an alias stands for the node of an anchor met before it.
-/

namespace Casebook.Yaml

/-- What is written in front of a node. -/
structure Properties where
  /-- The number of its anchor. -/
  anchor : Option Nat
  /-- Its tag, written out. -/
  tag : Option Tag
  deriving Inhabited

/-- A node of a document. -/
inductive Node where
  | aliasOf (anchor : Nat)
  | scalar (p : Properties) (isPlain : Bool) (text : String)
  | sequence (p : Properties) (items : List Node)
  | mapping (p : Properties) (entries : List (Node × Node))
  deriving Inhabited

namespace Node

/-- A node that is left out. -/
def empty : Node :=
  .scalar ⟨none, none⟩ true ""

/-- The anchor of a node. -/
def anchor : Node → Option Nat
  | aliasOf _ => none
  | scalar p _ _ => p.anchor
  | sequence p _ => p.anchor
  | mapping p _ => p.anchor

mutual

/-- The anchored nodes in a node, in the order in which they begin. -/
def anchored : Node → List (Nat × Node)
  | aliasOf _ => []
  | scalar p isPlain text => p.anchor.toList.map fun n => (n, scalar p isPlain text)
  | sequence p items =>
    (p.anchor.toList.map fun n => (n, sequence p items)) ++ anchoredItems items
  | mapping p entries =>
    (p.anchor.toList.map fun n => (n, mapping p entries)) ++ anchoredEntries entries

/-- The anchored nodes in items. -/
def anchoredItems : List Node → List (Nat × Node)
  | [] => []
  | n :: rest => anchored n ++ anchoredItems rest

/-- The anchored nodes in entries. -/
def anchoredEntries : List (Node × Node) → List (Nat × Node)
  | [] => []
  | (k, v) :: rest => anchored k ++ anchored v ++ anchoredEntries rest

end

mutual

/-- The size of a node: one for a scalar or an alias, two for the ends of a collection. -/
def size : Node → Nat
  | aliasOf _ => 1
  | scalar .. => 1
  | sequence _ items => sizeItems items + 2
  | mapping _ entries => sizeEntries entries + 2

/-- The size of items. -/
def sizeItems : List Node → Nat
  | [] => 0
  | n :: rest => size n + sizeItems rest

/-- The size of entries. -/
def sizeEntries : List (Node × Node) → Nat
  | [] => 0
  | (k, v) :: rest => size k + size v + sizeEntries rest

end

end Node

/-! ## Reading nodes -/

/-- The tokens that are left, the anchors by name, and the handles of tags. -/
structure NodeReader where
  tokens : List Token
  anchors : Dict Nat
  handles : Dict Tag

/-- A computation that reads tokens, or fails. -/
abbrev NodeReading (α : Type) := StateT NodeReader Option α

namespace NodeReading

/-- The next token, which stays where it is. -/
def peek : NodeReading (Option Token) :=
  return (← get).tokens.head?

/-- Pass over a token. -/
def skip : NodeReading Unit :=
  modify fun r => { r with tokens := r.tokens.drop 1 }

/-- Whether one of these tokens is next. -/
def isNext (ts : List Token) : NodeReading Bool :=
  return (← peek).any fun t => ts.contains t

/-- Pass over a token if it is next. -/
def accept (t : Token) : NodeReading Bool := do
  if ← isNext [t] then
    skip
    return true
  else return false

/-- Pass over a token that has to be next. -/
def expect (t : Token) : NodeReading Unit := do
  if !(← accept t) then failure

/-- Number an anchor. Its number is how many names are known, so an anchor that takes over a known
name does not raise the numbers to come. -/
def declare (name : String) : NodeReading Nat := do
  let r ← get
  let n := r.anchors.length
  set { r with anchors := r.anchors.insert name n }
  return n

/-- A tag written out. -/
def writtenOut (handle : String) (suffix : Tag) : NodeReading Tag := do
  if handle = "" then return suffix
  match (← get).handles.get? handle with
  | some start => return start.append suffix
  | none => failure

/-- An anchor, if one is next. -/
def anchor? : NodeReading (Option String) := do
  match ← peek with
  | some (.anchor name) =>
    skip
    return some name
  | _ => return none

/-- A tag, if one is next. -/
def tag? : NodeReading (Option (String × Tag)) := do
  match ← peek with
  | some (.tag handle suffix) =>
    skip
    return some (handle, suffix)
  | _ => return none

/-- An anchor and a tag in any order. -/
def properties : NodeReading (Option String × Option (String × Tag)) := do
  match ← anchor? with
  | some name => return (some name, ← tag?)
  | none =>
    match ← tag? with
    | some t => return (← anchor?, some t)
    | none => return (none, none)

mutual

/-- A node, read with so much fuel. Indented collections may start only where `inBlock` says so,
and hyphens that are not indented only where `unindented` says so. -/
def node : Nat → (inBlock unindented : Bool) → NodeReading Node
  | 0, _, _ => failure
  | n + 1, inBlock, unindented => do
    match ← peek with
    | some (.alias name) =>
      skip
      match (← get).anchors.get? name with
      | some a => return .aliasOf a
      | none => failure
    | _ =>
      let (name, rawTag) ← properties
      let tag ← rawTag.mapM fun t => writtenOut t.1 t.2
      let bare := name.isNone && tag.isNone
      let declared : NodeReading Properties := do
        return ⟨← name.mapM declare, tag⟩
      match ← peek with
      | some .blockEntry =>
        if unindented then return .sequence (← declared) (← unindentedItems n)
        else if bare then failure
        else return .scalar (← declared) true ""
      | some (.scalar isPlain text) =>
        skip
        return .scalar (← declared) isPlain text
      | some .flowSequenceStart =>
        skip
        return .sequence (← declared) (← flowItems n true)
      | some .flowMappingStart =>
        skip
        return .mapping (← declared) (← flowEntries n true)
      | some .blockSequenceStart =>
        if inBlock then
          skip
          return .sequence (← declared) (← blockItems n)
        else if bare then failure
        else return .scalar (← declared) true ""
      | some .blockMappingStart =>
        if inBlock then
          skip
          return .mapping (← declared) (← blockEntries n)
        else if bare then failure
        else return .scalar (← declared) true ""
      | _ => if bare then failure else return .scalar (← declared) true ""

/-- A node, or none before one of these tokens. -/
def nodeUnless : Nat → List Token → (inBlock unindented : Bool) → NodeReading Node
  | 0, _, _, _ => failure
  | n + 1, stops, inBlock, unindented => do
    if ← isNext stops then return .empty
    else node n inBlock unindented

/-- The items of an indented sequence. -/
def blockItems : Nat → NodeReading (List Node)
  | 0 => failure
  | n + 1 => do
    if ← accept .blockEntry then
      let item ← nodeUnless n [.blockEntry, .blockEnd] true false
      return item :: (← blockItems n)
    else
      expect .blockEnd
      return []

/-- The items of a sequence that is not indented. -/
def unindentedItems : Nat → NodeReading (List Node)
  | 0 => failure
  | n + 1 => do
    if ← accept .blockEntry then
      let item ← nodeUnless n [.blockEntry, .key, .value, .blockEnd] true false
      return item :: (← unindentedItems n)
    else return []

/-- The entries of an indented mapping; a key alone has an empty value. -/
def blockEntries : Nat → NodeReading (List (Node × Node))
  | 0 => failure
  | n + 1 => do
    if ← accept .key then
      let key ← nodeUnless n [.key, .value, .blockEnd] true true
      if ← accept .value then
        let value ← nodeUnless n [.key, .value, .blockEnd] true true
        return (key, value) :: (← blockEntries n)
      else return (key, .empty) :: (← blockEntries n)
    else
      expect .blockEnd
      return []

/-- The items of a flow sequence; an item that is a key makes a mapping of one entry. -/
def flowItems : Nat → (isFirst : Bool) → NodeReading (List Node)
  | 0, _ => failure
  | n + 1, isFirst => do
    if ← accept .flowSequenceEnd then return []
    if !isFirst then expect .flowEntry
    if ← accept .flowSequenceEnd then return []
    let item ←
      if ← accept .key then
        if ← isNext [.value, .flowEntry, .flowSequenceEnd] then
          skip
          pure (.mapping ⟨none, none⟩ [(.empty, ← flowValue n .flowSequenceEnd)])
        else
          let key ← node n false false
          pure (.mapping ⟨none, none⟩ [(key, ← flowValue n .flowSequenceEnd)])
      else node n false false
    return item :: (← flowItems n false)

/-- The entries of a flow mapping; a key alone has an empty value. -/
def flowEntries : Nat → (isFirst : Bool) → NodeReading (List (Node × Node))
  | 0, _ => failure
  | n + 1, isFirst => do
    if ← accept .flowMappingEnd then return []
    if !isFirst then expect .flowEntry
    if ← accept .flowMappingEnd then return []
    let entry ←
      if ← accept .key then
        let key ← nodeUnless n [.value, .flowEntry, .flowMappingEnd] false false
        pure (key, ← flowValue n .flowMappingEnd)
      else
        pure (← node n false false, .empty)
    return entry :: (← flowEntries n false)

/-- The value behind a key in a flow collection, if there is one. -/
def flowValue : Nat → (closing : Token) → NodeReading Node
  | 0, _ => failure
  | n + 1, closing => do
    if ← accept .value then nodeUnless n [.flowEntry, closing] false false
    else return .empty

end

/-- The version that a document may declare. -/
def isKnownVersion (major minor : Nat) : Bool :=
  major = 1 && (minor = 1 || minor = 2)

/-- The directives in front of a document, where at most so many tokens are left; whether there was
one. -/
def directives : Nat → (versioned : Bool) → (declared : List String) → NodeReading Bool
  | 0, _, _ => failure
  | n + 1, versioned, declared => do
    match ← peek with
    | some (.versionDirective major minor) =>
      if versioned || !isKnownVersion major minor then failure
      skip
      let _ ← directives n true declared
      return true
    | some (.tagDirective handle start) =>
      if declared.contains handle then failure
      skip
      modify fun r => { r with handles := r.handles.insert handle start }
      let _ ← directives n versioned (handle :: declared)
      return true
    | _ => return false

/-- Pass over marks of the end of a document, where at most so many tokens are left. -/
def documentEnds : Nat → NodeReading Unit
  | 0 => return
  | n + 1 => do
    if ← accept .documentEnd then documentEnds n

/-- The only document of a text; none if the text has no document at all. -/
def document : NodeReading (Option Node) := do
  let fuel := 3 * (← get).tokens.length + 3
  if (← peek).isNone then return none
  let directed ← directives fuel false []
  let explicit ← accept .documentStart
  if directed && !explicit then failure
  let next ← peek
  let isEmpty := explicit &&
    match next with
    | none | some (.versionDirective ..) | some (.tagDirective ..) => true
    | some .documentStart | some .documentEnd => true
    | _ => false
  let root ← if isEmpty then pure Node.empty else node fuel true false
  documentEnds fuel
  if (← peek).isNone then return some root else failure

end NodeReading

namespace Node

/-- The handles that are known in every document. -/
def handles : Dict Tag :=
  Dict.ofList [("!", .ofString "!"), ("!!", .ofString "tag:yaml.org,2002:")]

/-- The node that tokens make, the empty one if there are none; none if they do not make exactly one
document. -/
def ofTokens? (tokens : List Token) : Option Node :=
  (NodeReading.document.run ⟨tokens, [], handles⟩).map fun r => r.1.getD .empty

end Node

end Casebook.Yaml
