import Casebook.Definition.Action
import Casebook.Definition.Step
import Casebook.Pattern.Basic
import Casebook.Text.FileName

/-!
# Cases

A case prepares, acts, cleans up and verifies. Its variables and patterns are bound when it starts.
Cases come in testsets, one for each document that was asked for.
-/

namespace Casebook

/-- A test case that is ready to run. -/
structure Case where
  id : String
  desc : String
  responsible : Option String
  tester : Option String
  preCommand : List Action
  steps : List Step
  postCommand : List Action
  verify : List Action
  /-- Variables whose texts are templates. -/
  globals : Dict Value
  patterns : Dict Pattern

namespace Case

/-- A case that does nothing. -/
def blank (id desc : String) : Case :=
  { id, desc, responsible := none, tester := none, preCommand := [], steps := [],
    postCommand := [], verify := [], globals := [], patterns := [] }

/-- The name a case is shown under, which a file may have too. -/
def name (c : Case) : String :=
  Text.legalFileName s!"{c.id}[{c.desc}]"

/-- Actions as a document shows them. -/
def sources (actions : List Action) : Value :=
  .array (actions.map fun a => .string a.source)

/-- A case as a document shows it. -/
def toValue (c : Case) : Value :=
  .object
    ([("id", .string c.id), ("desc", .string c.desc)]
      ++ (c.responsible.toList.map fun s => ("responsible", .string s))
      ++ (c.tester.toList.map fun s => ("tester", .string s))
      ++ [("pre_command", sources c.preCommand), ("steps", .array (c.steps.map Step.toValue)),
        ("post_command", sources c.postCommand), ("verify", sources c.verify)]
      ++ (if c.globals.isEmpty then [] else [("glob_var", .object c.globals)])
      ++ (if c.patterns.isEmpty then []
        else [("glob_regx", .object (c.patterns.mapValues fun p => .string p.source))]))

end Case

/-- What a document says about the system under test. -/
structure Project where
  name : String
  module : String
  /-- What the document is called if it is a suite. -/
  definition : Option String

namespace Project

/-- The module of a document that names none. -/
def defaultModule : String := "Default Test Set"

/-- A project as a document shows it. -/
def toValue (p : Project) : Value :=
  .object ([("name", .string p.name), ("module", .string p.module)]
    ++ p.definition.toList.map fun s => ("def", .string s))

end Project

/-- The cases of a document. -/
structure TestSet where
  path : String
  project : Project
  cases : List Case

namespace TestSet

/-- A testset as it is shown. -/
def toValue (t : TestSet) : Value :=
  .object [("path", .string t.path), ("project", t.project.toValue),
    ("cases", .array (t.cases.map Case.toValue))]

end TestSet

end Casebook
