import Casebook.Definition.Document
import Casebook.Files.Tree
import Casebook.Json.Reader
import Casebook.Yaml.Document

/-!
# Reading definitions from files

Documents are YAML or JSON files; the extension tells which. The testsets of a folder are all
documents beneath it outside its dependency areas, and the fragments of a testset lie in the
dependency area next to it.
-/

namespace Casebook

/-- Where fragments lie, and how deep placeholders of actions and references may nest. -/
structure Layout where
  /-- The folder of a dependency area, next to the testsets. -/
  dependencies : String
  /-- The folder of api fragments in a dependency area. -/
  apis : String
  /-- The folder of suites in a dependency area. -/
  suites : String
  depth : Nat
  deriving DecidableEq

namespace Layout

/-- Where fragments lie if nothing else is said. -/
def standard : Layout :=
  ⟨"dependencies", "api", "suite", defaultDepth⟩

/-- The dependency area of a testset or of a folder of testsets. -/
def area (l : Layout) (files : Files) (path : String) : String :=
  let base := if files.isFolderAt path then path else (Path.parent? path).getD "."
  Path.join base l.dependencies

/-- The folder of a kind of fragments in a dependency area. -/
def folder (l : Layout) (kind : FragmentKind) (area : String) : String :=
  match kind with
  | .api => Path.join area l.apis
  | .suite => Path.join area l.suites

end Layout

namespace Source

/-- A text in lower case, as far as it is ASCII. -/
def lower (s : String) : String :=
  s.map Char.toLower

/-- The extensions of documents. -/
def extensions : List String := ["yaml", "yml", "json"]

/-- Whether a path has the extension of a document. -/
def isDefinition (path : String) : Bool :=
  (Path.extension? path).any fun e => extensions.contains (lower e)

/-- Whether a path has the extension of a JSON document. -/
def isJson (path : String) : Bool :=
  (Path.extension? path).any fun e => lower e = "json"

/-- The value of the document at a path. -/
def readValue (files : Files) (path : String) : Except Error Value :=
  if !isDefinition path then
    .error (.malformed path "expected a .yaml, .yml or .json file")
  else
    match files.read? path with
    | none => .error (.fileRead path Error.unreported)
    | some text =>
      match if isJson path then Json.parse? text else Yaml.read? text with
      | some v => .ok v
      | none => .error (.malformed path Error.unreported)

/-- The testset or suite document at a path. -/
def readDocument (files : Files) (limit : Nat) (path : String) : Except Error Document := do
  Document.parse path limit (← readValue files path)

/-- The api fragment that a block is. Its execution fields are read too, so that it is refused when
it is loaded rather than when it is used. -/
def apiOfBlock (path : String) (limit : Nat) (b : Block) : Except Error Fragment := do
  if b.key ≠ "api" then
    throw (.malformed path s!"unexpected '{b.key}' block in an api document")
  match (b.body.field? "def").bind Value.text? with
  | none => throw (.missingField "def" s!"{path} api block")
  | some text =>
    let head ← FragmentHead.parse path text
    let _ ← ExecutionFields.ofApiBody s!"{path} api '{head.name}'" limit b.body
    return { head, body := b.body, path }

/-- The api fragments in the document at a path. -/
def readApis (files : Files) (limit : Nat) (path : String) : Except Error (List Fragment) := do
  let blocks ← Block.ofDocument path (← readValue files path)
  blocks.mapM (apiOfBlock path limit)

/-- The suite that the document at a path is. -/
def readSuite (files : Files) (limit : Nat) (path : String) : Except Error Fragment := do
  let body ← readValue files path
  let document ← Document.parse path limit body
  match document.project.definition with
  | none => throw (.missingField "project.def" path)
  | some text => return { head := ← FragmentHead.parse path text, body, path }

/-- The fragments of a kind in the document at a path. -/
def readFragments (files : Files) (kind : FragmentKind) (limit : Nat) (path : String) :
    Except Error (List Fragment) :=
  match kind with
  | .api => readApis files limit path
  | .suite => (readSuite files limit path).map fun f => [f]

/-- The documents beneath a folder, in order of their paths; none if there is no such folder. -/
def definitionsBeneath (files : Files) (folder : String) : List String :=
  if files.isFolderAt folder then
    (files.filesBeneath (fun _ => false) folder).filter isDefinition
  else []

/-- The documents beneath a folder, all folders of which have to be listed. -/
def definitionsIn (files : Files) (folder : String) : Except Error (List String) :=
  if files.isListableAt (fun _ => false) folder then .ok (definitionsBeneath files folder)
  else .error (.fileRead folder Error.unreported)

/-- The testsets that a path names: a file itself, or the documents beneath a folder outside its
dependency areas. -/
def testsetsAt (files : Files) (layout : Layout) (path : String) :
    Except Error (List String) :=
  if files.isFileAt path then .ok [path]
  else if files.isFolderAt path then
    if files.isListableAt (· = layout.dependencies) path then
      .ok ((files.filesBeneath (· = layout.dependencies) path).filter isDefinition)
    else .error (.fileRead path Error.unreported)
  else .error (.fileRead path "no such file or directory")

end Source

end Casebook
