import Casebook.Definition.Block
import Casebook.Definition.Case
import Casebook.Definition.Fragment
import Casebook.Files.Path

/-!
# Documents

A testset and a suite are written the same way: a `project` block at any place, once at most, and a
`case` block for each entry. An entry is a case, a case whose execution fields come from an api
fragment, or a suite that stands for the cases it expands to.
-/

namespace Casebook

/-- An entry of a document. -/
inductive Entry where
  | case (c : Case)
  | api (base : Case) (r : Reference)
  | suite (r : Reference)

/-- A document whose references are not followed yet. -/
structure Document where
  path : String
  project : Project
  entries : List Entry

/-- What a case does; a field that is not declared is none. -/
structure ExecutionFields where
  preCommand : Option (List Action)
  steps : Option (List Step)
  postCommand : Option (List Action)
  verify : Option (List Action)

namespace ExecutionFields

/-- Declared fields take the place of those of a case. -/
def overlay (f : ExecutionFields) (c : Case) : Case :=
  { c with
    preCommand := f.preCommand.getD c.preCommand
    steps := f.steps.getD c.steps
    postCommand := f.postCommand.getD c.postCommand
    verify := f.verify.getD c.verify }

/-- The actions that texts are. -/
def actions (location : String) (limit : Nat) (texts : List String) : Except Error (List Action) :=
  texts.mapM fun text => (Action.parse limit text).mapError (Error.within location)

/-- The steps that mappings are, the first of which has some number. -/
def stepsFrom (location : String) : Nat → List (Dict Value) → Except Error (List Step)
  | _, [] => .ok []
  | number, entries :: rest => do
    let step ← Step.ofEntries s!"{location} step #{number}" entries
    return step :: (← stepsFrom location (number + 1) rest)

/-- Execution fields as they are written. -/
structure Written where
  preCommand : Option (List String)
  steps : Option (List (Dict Value))
  postCommand : Option (List String)
  verify : Option (List String)

namespace Written

/-- The execution fields among the fields of a body. -/
def ofFields? (fields : Fields) : Option Written := do
  return {
    preCommand := ← fields.get "pre_command" Fields.texts?
    steps := ← fields.get "steps" Fields.mappings?
    postCommand := ← fields.get "post_command" Fields.texts?
    verify := ← fields.get "verify" Fields.texts? }

/-- Whether nothing is declared. -/
def isEmpty (w : Written) : Bool :=
  w.preCommand.isNone && w.steps.isNone && w.postCommand.isNone && w.verify.isNone

/-- The execution fields that are written. -/
def read (w : Written) (location : String) (limit : Nat) : Except Error ExecutionFields := do
  let preCommand ← w.preCommand.mapM (actions location limit)
  let steps ← w.steps.mapM (stepsFrom location 1)
  let postCommand ← w.postCommand.mapM (actions location limit)
  let verify ← w.verify.mapM (actions location limit)
  return { preCommand, steps, postCommand, verify }

end Written

/-- The fields of an api block. -/
def apiNames : List String := ["def", "pre_command", "steps", "post_command", "verify"]

/-- The execution fields of the body of an api block. -/
def ofApiBody (location : String) (limit : Nat) (body : Value) : Except Error ExecutionFields := do
  let written : Option Written := do
    let fields ← Fields.ofBody? apiNames true body
    let _ ← fields.get "def" Value.text?
    Written.ofFields? fields
  match written with
  | some w => w.read location limit
  | none => throw (.malformed location Error.unreported)

end ExecutionFields

namespace Project

/-- The fields of a project block. -/
def names : List String := ["name", "module", "def"]

/-- The project of a document without a project block. -/
def ofPath (path : String) : Project :=
  ⟨(Path.stem? path).getD "", defaultModule, none⟩

/-- The project that the body of a project block describes; a name that is left out is that of the
file. -/
def ofBody (path : String) (body : Value) : Except Error Project :=
  match body with
  | .null => .ok (ofPath path)
  | body =>
    let project : Option Project := do
      let fields ← Fields.ofBody? names false body
      let name ← fields.get "name" Value.text?
      let module ← fields.get "module" Value.text?
      let definition ← fields.get "def" Value.text?
      return {
        name := name.getD (ofPath path).name
        module := module.getD defaultModule
        definition := definition.map Text.trimmed }
    match project with
    | some p => .ok p
    | none => .error (.malformed path Error.unreported)

end Project

namespace Entry

/-- The fields of a case block. -/
def names : List String :=
  ["id", "desc", "responsible", "tester", "pre_command", "steps", "post_command", "verify",
    "glob_var", "glob_regx", "api", "suite"]

/-- The body of a case block as it is written. -/
structure Written where
  id : Option Value
  desc : Option Value
  responsible : Option String
  tester : Option String
  execution : ExecutionFields.Written
  globals : Option (Dict Value)
  patterns : Option (Dict String)
  api : Option String
  suite : Option String

/-- The fields of the body of a case block. -/
def Written.ofBody? (body : Value) : Option Written := do
  let fields ← Fields.ofBody? names true body
  return {
    id := fields.get? "id"
    desc := fields.get? "desc"
    responsible := ← fields.get "responsible" Value.text?
    tester := ← fields.get "tester" Value.text?
    execution := ← ExecutionFields.Written.ofFields? fields
    globals := ← fields.get "glob_var" Fields.entries?
    patterns := ← fields.get "glob_regx" Fields.textEntries?
    api := ← fields.get "api" Value.text?
    suite := ← fields.get "suite" Value.text? }

/-- The text of a field that may be written as a number or a truth value. -/
def scalarText (location field : String) : Option Value → Except Error String
  | some (.string s) => .ok s
  | some (.number n) => .ok n.text
  | some (.bool b) => .ok (if b then "true" else "false")
  | none | some .null => .error (.missingField field location)
  | some _ => .error (.malformed location s!"'{field}' must be a scalar")

/-- The patterns that texts are. -/
def readPatterns (sources : Dict String) : Except Error (Dict Pattern) :=
  sources.mapM fun entry =>
    match Pattern.ofSource? entry.2 with
    | some p => .ok (entry.1, p)
    | none => .error (.invalidPattern entry.1 Error.unreported)

/-- A reference to a fragment. -/
def reference (location : String) (limit : Nat) (kind : FragmentKind) (text : String) :
    Except Error Reference :=
  (Reference.parse kind limit text).mapError (Error.within location)

/-- The entry that stands for a suite, which has no execution fields of its own. -/
def ofSuite (location : String) (limit : Nat) (w : Written) (text : String) :
    Except Error Entry := do
  if w.api.isSome then
    throw (.malformed location "a case cannot reference both an api and a suite")
  if !w.execution.isEmpty then
    throw (.malformed location s!"suite reference '{text}' cannot carry execution fields")
  return .suite (← reference location limit .suite text)

/-- The entry that is a case. -/
def ofCase (location : String) (limit : Nat) (w : Written) : Except Error Entry := do
  let id ← scalarText location "id" w.id
  let location := s!"{location} case '{id}'"
  let desc ← scalarText location "desc" w.desc
  let execution ← w.execution.read location limit
  let patterns ← readPatterns (w.patterns.getD [])
  let c := execution.overlay { Case.blank id desc with
    responsible := w.responsible, tester := w.tester, globals := w.globals.getD [], patterns }
  match w.api with
  | some text => return .api c (← reference location limit .api text)
  | none => return .case c

/-- The entry that the body of a case block is. -/
def ofBody (location : String) (limit : Nat) (body : Value) : Except Error Entry :=
  match Written.ofBody? body with
  | none => .error (.malformed location Error.unreported)
  | some w =>
    match w.suite with
    | some text => ofSuite location limit w text
    | none => ofCase location limit w

end Entry

namespace Document

/-- What the blocks read so far amount to. -/
structure Progress where
  project : Option Project
  entries : List Entry

/-- Read one more block. -/
def addBlock (path : String) (limit : Nat) (done : Progress) (b : Block) :
    Except Error Progress := do
  if b.key = "project" then
    if done.project.isSome then throw (.malformed path "more than one 'project' block")
    return { done with project := some (← Project.ofBody path b.body) }
  else if b.key = "case" then
    return { done with entries := done.entries ++ [← Entry.ofBody path limit b.body] }
  else throw (.malformed path s!"unexpected '{b.key}' block in a testset")

/-- The document that a value at a path is, with placeholders nested at most as deep as the
limit. -/
def parse (path : String) (limit : Nat) (v : Value) : Except Error Document := do
  let blocks ← Block.ofDocument path v
  let done ← blocks.foldlM (addBlock path limit) ⟨none, []⟩
  return { path, project := done.project.getD (Project.ofPath path), entries := done.entries }

end Document

end Casebook
