import Casebook.Value.Basic

/-!
# Templates

A template is text with placeholders: `$name` and `${name}` stand for a variable,
`${verb(arguments)}` for the result of a verb, and `$$` for a dollar. Text between placeholders
is held as it reads after `$$` is replaced.
-/

namespace Casebook

mutual

/-- A piece of a template. -/
inductive Segment where
  /-- Plain text. -/
  | text (s : String)
  /-- The value of a variable. -/
  | var (name : String)
  /-- The result of a verb. -/
  | call (c : Call)

/-- A verb and the arguments it is called with. -/
structure Call where
  name : String
  args : List Argument

/-- An argument as it was written: `key` is its keyword, `source` its text without quotes. -/
inductive Argument where
  /-- Text without quotes and placeholders, already typed. -/
  | literal (key : Option String) (value : Value) (source : String)
  /-- Text between two quotes of one kind; its value is always a string. -/
  | quoted (key : Option String) (delimiter : Char) (body : List Segment) (source : String)
  /-- Text without quotes that has placeholders. -/
  | expr (key : Option String) (body : List Segment) (source : String)

end

namespace Argument

/-- The keyword of an argument, if it has one. -/
def key : Argument → Option String
  | literal key _ _ => key
  | quoted key _ _ _ => key
  | expr key _ _ => key

/-- The text of an argument without surrounding quotes. -/
def source : Argument → String
  | literal _ _ source => source
  | quoted _ _ _ source => source
  | expr _ _ source => source

/-- The text of an argument exactly as written, quotes included. -/
def raw : Argument → String
  | literal _ _ source => source
  | quoted _ delimiter _ source => String.ofList (delimiter :: source.toList ++ [delimiter])
  | expr _ _ source => source

end Argument

/-- Text with placeholders. -/
structure Template where
  segments : List Segment

namespace Segment

/-- Whether a piece is plain text. -/
def isText : Segment → Bool
  | text _ => true
  | _ => false

mutual

/-- The variables a piece refers to, those in arguments included, as they are written. -/
def references : Segment → List String
  | text _ => []
  | var name => [name]
  | call ⟨_, args⟩ => referencesOfArgs args

/-- The variables of each piece, in order. -/
def referencesOfSegments : List Segment → List String
  | [] => []
  | s :: rest => references s ++ referencesOfSegments rest

/-- The variables of an argument. -/
def referencesOfArg : Argument → List String
  | .literal _ _ _ => []
  | .quoted _ _ body _ => referencesOfSegments body
  | .expr _ body _ => referencesOfSegments body

/-- The variables of each argument, in order. -/
def referencesOfArgs : List Argument → List String
  | [] => []
  | a :: rest => referencesOfArg a ++ referencesOfArgs rest

end

end Segment

namespace Template

/-- Whether a template has no placeholder. -/
def isLiteral (t : Template) : Bool :=
  t.segments.all Segment.isText

/-- The placeholder of a template that is nothing but one. -/
def solePlaceholder? (t : Template) : Option Segment :=
  match t.segments with
  | [.var name] => some (.var name)
  | [.call c] => some (.call c)
  | _ => none

/-- The variables a template refers to, those in arguments included, as they are written. -/
def references (t : Template) : List String :=
  Segment.referencesOfSegments t.segments

end Template

end Casebook
