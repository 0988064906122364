import Casebook.Template.Parser

/-!
# Actions

An action is one instruction of a case, a call written as text such as `${SetVar(name, value)}`.
-/

namespace Casebook

/-- An instruction of a case. -/
structure Action where
  /-- The text as it was written, without outer blanks. -/
  source : String
  call : Call

namespace Action

/-- The action that a text is, with placeholders nested at most as deep as the limit. -/
def parse (limit : Nat) (text : String) : Except Error Action :=
  (Template.parseCall limit text).map fun call => ⟨Text.trimmed text, call⟩

/-- The verb that an action calls. -/
def function (a : Action) : String :=
  a.call.name

end Action

namespace Error

/-- A template that is no template where it stands in a document is a fault of the document. -/
def within (location : String) : Error → Error
  | e@(.templateSyntax ..) | e@(.recursionLimit _) => .malformed location e.message
  | e => e

end Error

/-- The limit of nesting if nothing else is said. -/
def defaultDepth : Nat := 32

end Casebook
