import Casebook.Definition.Action
import Casebook.Template.Substitution

/-!
# Fragments and references

A fragment is a piece of a document that can be used in many places. Its head, such as
`login($user, $pwd)`, names it and its parameters; a reference, such as `login(admin, "a b")`,
names a fragment and gives the arguments.
-/

namespace Casebook

/-- The kinds of fragments. -/
inductive FragmentKind where
  /-- What a case does. -/
  | api
  /-- A list of cases. -/
  | suite
  deriving DecidableEq

namespace FragmentKind

/-- The name of a kind. -/
def name : FragmentKind → String
  | api => "api"
  | suite => "suite"

end FragmentKind

/-- A use of a fragment. -/
structure Reference where
  kind : FragmentKind
  call : Call
  /-- The text as it was written, without outer blanks. -/
  source : String

namespace Reference

/-- The reference that a text is, with placeholders nested at most as deep as the limit. -/
def parse (kind : FragmentKind) (limit : Nat) (text : String) : Except Error Reference :=
  (Template.parseCall limit text).map fun call => ⟨kind, call, Text.trimmed text⟩

/-- The fragment that a reference names. -/
def name (r : Reference) : String :=
  r.call.name

/-- The texts of the arguments, without outer quotes. -/
def sources (r : Reference) : List String :=
  r.call.args.map Argument.source

/-- An argument as it was written, behind its keyword if it has one. -/
def argumentText (a : Argument) : String :=
  match a.key with
  | some key => s!"{key}={a.raw}"
  | none => a.raw

/-- What tells references apart: the name and the arguments as they were written. -/
def key (r : Reference) : String :=
  r.name ++ "(" ++ Text.join "," (r.call.args.map argumentText) ++ ")"

end Reference

/-- The name of a fragment and its parameters. -/
structure FragmentHead where
  name : String
  params : List String
  deriving DecidableEq

namespace FragmentHead

/-- The parameter that an argument of a head declares: a lone variable without keyword. -/
def param? : Argument → Option String
  | .expr none body _ =>
    match (Template.mk body).solePlaceholder? with
    | some (.var name) => some name
    | _ => none
  | _ => none

/-- Add the parameter that an argument declares. -/
def addParam (location text : String) (params : List String) (a : Argument) :
    Except Error (List String) :=
  match param? a with
  | some name =>
    if name ∈ params then
      .error (.malformed location s!"parameter '${name}' declared twice in '{text}'")
    else .ok (params ++ [name])
  | none =>
    .error (.malformed location
      s!"definition parameters must be $NAME placeholders, got '{a.source}' in '{text}'")

/-- The head that a text is. -/
def parse (location text : String) : Except Error FragmentHead := do
  let call ← (Template.parseCall defaultDepth text).mapError fun e =>
    .malformed location e.message
  let params ← call.args.foldlM (addParam location text) []
  return ⟨call.name, params⟩

/-- What the parameters are replaced by for a reference. A parameter that is passed on under its own
name stays as it is. -/
def bind (h : FragmentHead) (r : Reference) : Except Error (Dict Substitution) :=
  if r.call.args.length ≠ h.params.length then
    .error (.argumentMismatch h.name h.params.length r.call.args.length)
  else
    let pairs := (h.params.zip r.call.args).filter fun (param, a) => a.raw ≠ "$" ++ param
    .ok (Dict.ofList (pairs.map fun (param, a) => (param, ⟨a.source, a.raw⟩)))

end FragmentHead

/-- A fragment as it was loaded; parameters are replaced in its body for each reference. -/
structure Fragment where
  head : FragmentHead
  body : Value
  path : String

namespace Fragment

/-- The body of a fragment for a reference. -/
def instantiate (f : Fragment) (r : Reference) : Except Error Value :=
  (f.head.bind r).map fun mapping => Substitution.applyToValue mapping f.body

end Fragment

end Casebook
