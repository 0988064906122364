import Casebook.Context.Evaluation
import Casebook.Decimal.Reading
import Casebook.Text.Split
import Casebook.Value.Path

/-!
# Built-in verbs

The verbs every run starts with. Binding verbs set variables, extraction verbs bind a piece of the
result of the last step, and verify verbs either give true or fail as an assertion.
-/

namespace Casebook

/-- A verb that comes with the program. -/
structure Builtin where
  name : String
  description : String
  verb : Verb

namespace Builtin

/-- Bind a variable and give its value. -/
def bindTo (name : String) (v : Value) : StoreAction Value := do
  modify fun s => s.set name v
  return v

/-- Pass if a check holds, else fail with an account of what is wrong. -/
def verify (holds : Bool) (problem : String) : StoreAction Value :=
  if holds then return .bool true else throw (.assertion problem)

/-! ## Binding -/

/-- Bind every keyword as a variable. -/
def set (args : Arguments) : StoreAction Value := do
  modify fun s => s.setAll args.named
  return .null

/-- Bind a variable. -/
def setVar (args : Arguments) : StoreAction Value :=
  if args.text 0 = "" then throw (.badArguments "SetVar" "variable name is empty")
  else bindTo (args.text 0) ((args.get? 1).getD .null)

/-- Give the value of a variable. -/
def getVar (_ : Arguments) (found : Except Error Value) : StoreAction Value :=
  ExceptT.mk (pure found)

/-- Give the time in milliseconds. -/
def getTimestamp (_ : Arguments) : StoreAction Value := do
  return .nat (← get).clock

/-! ## Extraction -/

/-- The result of the last step, for a verb that cannot do without. -/
def resultFor (function : String) : StoreAction Value := do
  match (← get).lastResult with
  | some v => return v
  | none => throw (.functionFailed function "no step result recorded yet")

/-- The number of the group that an argument asks for, the first if it is missing. -/
def groupIndex (v : Option Value) : Except Error Nat :=
  match v with
  | none => .ok 1
  | some v =>
    match Decimal.nat? v.render.toList with
    | some index => if Number.maxInt < index then .error (refused v) else .ok index
    | none => .error (refused v)
where
  /-- The argument is no number of a group. -/
  refused (v : Value) : Error :=
    .badArguments "DyStrData" s!"index must be a number, got {Json.compact v}"

/-- Bind what a group of a pattern matches in the result of the last step. -/
def dyStrData (args : Arguments) : StoreAction Value := do
  let index ← ExceptT.mk (pure (groupIndex (args.get? 2)))
  let name := args.text 1
  match (← get).pattern? name with
  | none => throw (.badArguments "DyStrData" s!"no pattern named '{name}' in glob_regx")
  | some pattern =>
    let result ← resultFor "DyStrData"
    match (pattern.captures result.resultText).bind fun groups => groups[index]?.join with
    | some s => bindTo (args.text 0) (.string s)
    | none => throw (.functionFailed "DyStrData" s!"pattern '{name}' group {index} did not match")

/-- Bind the value under a path in the result of the last step. -/
def dyJsonData (args : Arguments) : StoreAction Value := do
  let path := args.text 1
  match (← resultFor "DyJsonData").lookup path with
  | some v => bindTo (args.text 0) v
  | none => throw (.functionFailed "DyJsonData" s!"path '{path}' not found in step result")

/-! ## Verification -/

/-- Check the text of a variable. -/
def verifyVar (args : Arguments) (found : Except Error Value) : StoreAction Value :=
  let name := args.text 0
  let expected := args.text 1
  match found with
  | .ok actual =>
    verify (actual.render = expected)
      s!"variable '{name}': expected '{expected}', got '{actual.render}'"
  | .error (.unresolvedVariable _) => throw (.assertion s!"variable '{name}' is not bound")
  | .error e => throw e

/-- Check that two texts are the same. -/
def verifyEqual (args : Arguments) : StoreAction Value :=
  verify (args.text 0 = args.text 1) s!"expected '{args.text 1}', got '{args.text 0}'"

/-- Check the status code of the result of the last step. -/
def verifyCode (args : Arguments) : StoreAction Value := do
  match (← get).lastResult with
  | none => throw (.assertion "no step result to check the status code of")
  | some result =>
    match (result.field? "status_code").or (result.field? "status") with
    | none => throw (.assertion "step result carries no status code")
    | some code =>
      verify (code.render = args.text 0)
        s!"expected status code {args.text 0}, got {code.render}"

/-- How many characters of a result an account shows at most. -/
def shownLength : Nat := 200

/-- The beginning of a text, with dots in place of what is left out. -/
def shown (text : String) : String :=
  if shownLength < text.length then String.ofList (text.toList.take shownLength) ++ "..." else text

/-- Check that a text occurs in the result of the last step. -/
def verifyContain (args : Arguments) : StoreAction Value := do
  match (← get).lastResult with
  | none => throw (.assertion "no step result to search")
  | some result =>
    verify (Text.occursIn (args.text 0).toList result.resultText.toList)
      s!"result does not contain '{args.text 0}'. Got: '{shown result.resultText}'"

/-- Check that a variable is bound and not null. -/
def verifyNotNull (args : Arguments) : StoreAction Value := do
  match (← get).get? (args.text 0) with
  | none | some .null => throw (.assertion s!"variable '{args.text 0}' is null or unbound")
  | some _ => return .bool true

/-! ## The table of verbs -/

/-- The built-in verbs. -/
def all : List Builtin :=
  [ ⟨"Set", "Bind every keyword argument as a variable", ⟨.keywordsOnly, .direct set⟩⟩,
    ⟨"SetVar", "Bind a variable", ⟨.exact ["name", "value"], .direct setVar⟩⟩,
    ⟨"GetVar", "Return a variable's value", ⟨.exact ["name"], .onVariable getVar⟩⟩,
    ⟨"DyStrData", "Bind a regex capture from the last step result",
      ⟨.optional ["name", "regx", "index"] 2, .direct dyStrData⟩⟩,
    ⟨"DyJsonData", "Bind a dotted-path value from the last step result",
      ⟨.exact ["name", "path"], .direct dyJsonData⟩⟩,
    ⟨"GetTimestamp", "Current time in epoch milliseconds", ⟨.exact [], .direct getTimestamp⟩⟩,
    ⟨"VerifyVar", "Variable equals the expected value",
      ⟨.exact ["name", "expected"], .onVariable verifyVar⟩⟩,
    ⟨"VerifyEqual", "Two values are equal", ⟨.exact ["actual", "expected"], .direct verifyEqual⟩⟩,
    ⟨"VerifyCode", "Last step result has this status code", ⟨.exact ["code"], .direct verifyCode⟩⟩,
    ⟨"VerifyContain", "Last step result text contains the value",
      ⟨.exact ["text"], .direct verifyContain⟩⟩,
    ⟨"VerifyNotNull", "Variable is bound and not null", ⟨.exact ["name"], .direct verifyNotNull⟩⟩ ]

/-- The built-in verb of a name. -/
def find? (name : String) : Option Builtin :=
  all.find? fun b => b.name = name

/-- The built-in verbs as a registry. -/
def registry : Registry :=
  Dict.ofList (all.map fun b => (b.name, b.verb))

end Builtin

/-- A context with the built-in verbs and no variables. -/
def Context.withBuiltins (clock : Nat) : Context :=
  .ofVerbs Builtin.registry clock

end Casebook
