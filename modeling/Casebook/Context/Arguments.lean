import Casebook.Error
import Casebook.Value.Rendering

/-!
# Arguments and signatures

A verb declares its parameters; the arguments of a call are bound to them before it runs. Values
given by position come first, a keyword that names a parameter moves into its place, and any
other keyword is refused unless the verb takes keywords of all kinds.
-/

namespace Casebook

/-- The evaluated arguments of a call: those given by position, and the keywords in the order of
the call. -/
structure Arguments where
  positional : List Value
  named : List (String × Value)
  deriving Inhabited

namespace Arguments

/-- No arguments. -/
def none : Arguments := ⟨[], []⟩

/-- How many arguments are given by position. -/
def length (args : Arguments) : Nat :=
  args.positional.length

/-- Whether there is no argument at all. -/
def isEmpty (args : Arguments) : Bool :=
  args.positional.isEmpty && args.named.isEmpty

/-- The argument at a position. -/
def get? (args : Arguments) (index : Nat) : Option Value :=
  args.positional[index]?

/-- The text of the argument at a position, empty if there is none. -/
def text (args : Arguments) (index : Nat) : String :=
  ((args.get? index).map Value.render).getD ""

/-- Add an argument behind the others, under its keyword if it has one. -/
def add (args : Arguments) (key : Option String) (v : Value) : Arguments :=
  match key with
  | .none => { args with positional := args.positional ++ [v] }
  | some name => { args with named := args.named ++ [(name, v)] }

end Arguments

/-- The declared parameters of a verb, the first `required` of them mandatory. -/
structure Signature where
  params : List String
  required : Nat
  /-- Whether keywords that name no parameter are taken. -/
  keywords : Bool
  deriving DecidableEq, Inhabited

namespace Signature

/-- Exactly these parameters. -/
def exact (params : List String) : Signature :=
  ⟨params, params.length, false⟩

/-- These parameters, some at the end optional. -/
def optional (params : List String) (required : Nat) : Signature :=
  ⟨params, required, false⟩

/-- Keywords of all kinds and nothing else. -/
def keywordsOnly : Signature :=
  ⟨[], 0, true⟩

/-- The number of arguments in words, such as `2`, `2-3` or `keywords`. -/
def arity (s : Signature) : String :=
  if s.keywords ∧ s.params.isEmpty then "keywords"
  else if s.required = s.params.length then toString s.required
  else s!"{s.required}-{s.params.length}"

/-- The parameters as a text, optional ones with a question mark. -/
def text (s : Signature) : String :=
  let params := s.params.mapIdx fun i p => if i < s.required then p else p ++ "?"
  let all := if s.keywords then params ++ ["key=value..."] else params
  "(" ++ Text.join ", " all ++ ")"

/-- The values of the parameters, as far as they are given, and the keywords that name none. -/
structure Slots where
  values : List (Option Value)
  extra : List (String × Value)

/-- Put a keyword argument into its place. -/
def place (s : Signature) (function : String) (slots : Slots) (argument : String × Value) :
    Except Error Slots :=
  match s.params.idxOf? argument.1 with
  | some index =>
    if (slots.values[index]?.join).isSome then
      .error (.badArguments function s!"argument '{argument.1}' given twice")
    else .ok { slots with values := slots.values.set index (some argument.2) }
  | none =>
    if s.keywords then .ok { slots with extra := slots.extra ++ [argument] }
    else .error (.badArguments function s!"unexpected keyword argument '{argument.1}'")

/-- The values of the leading parameters that are given; no parameter behind a gap may be. -/
def leading (s : Signature) (function : String) (values : List (Option Value)) :
    Except Error (List Value) :=
  let filled := values.takeWhile Option.isSome
  if (values.dropWhile Option.isSome).any Option.isSome then
    let missing := s.params.getD filled.length ""
    .error (.badArguments function s!"missing argument '{missing}'")
  else .ok (filled.filterMap id)

/-- Bind the arguments of a call: those of the parameters in order, then the other keywords. -/
def bind (s : Signature) (function : String) (args : Arguments) : Except Error Arguments := do
  if s.params.length < args.positional.length then
    throw (.badArguments function
      s!"expected at most {s.params.length} argument(s), got {args.positional.length}")
  let given := args.positional.map some
  let missing := List.replicate (s.params.length - args.positional.length) none
  let slots ← args.named.foldlM (s.place function) ⟨given ++ missing, []⟩
  let positional ← s.leading function slots.values
  if positional.length < s.required then
    throw (.badArguments function
      s!"expected {s.arity} argument(s), got {positional.length}")
  return ⟨positional, slots.extra⟩

end Signature

end Casebook
