import Casebook.Text.Split

/-!
# Errors

Everything that can go wrong while definitions are loaded, templates are evaluated and cases are
run. Each error belongs to a family that says how far it travels: an error of loading stops the
run before it starts, an error of resolution or execution ends one case, a failed assertion is
recorded and stops nothing.
-/

namespace Casebook

/-- What went wrong. -/
inductive Error where
  | malformed (location reason : String)
  | missingField (field location : String)
  | duplicateDefinition (kind name first second : String)
  | duplicateCaseId (id : String)
  | unresolvedReference (kind name searched : String)
  | circularReference (chain : String)
  | argumentMismatch (name : String) (expected given : Nat)
  | invalidPattern (name reason : String)
  | unresolvedVariable (name : String)
  | unknownFunction (name : String)
  | badArguments (function problem : String)
  | templateSyntax (input problem : String)
  | cyclicVariable (chain : String)
  | recursionLimit (limit : Nat)
  | stepFailed (kind problem : String)
  | functionFailed (function problem : String)
  | assertion (problem : String)
  | configuration (problem : String)
  | configurationSyntax (problem : String)
  | io (problem : String)
  | fileRead (path problem : String)
  | json (problem : String)
  deriving DecidableEq, Inhabited

/-- The families of errors. -/
inductive ErrorCategory where
  | load
  | resolution
  | execution
  | assertion
  | configuration
  | io
  deriving DecidableEq

namespace ErrorCategory

/-- The name of a family in reports. -/
def name : ErrorCategory → String
  | .load => "load"
  | .resolution => "resolution"
  | .execution => "execution"
  | .assertion => "assertion"
  | .configuration => "config"
  | .io => "io"

end ErrorCategory

namespace Error

/-- Stands for a reason that is not reported: readers of documents, patterns and files only say
that they failed. -/
def unreported : String := "*"

/-- A reference to a fragment that none of the searched places holds. -/
def unresolved (kind name : String) (places : List String) : Error :=
  .unresolvedReference kind name (if places.isEmpty then "<nothing>" else Text.join ", " places)

/-- The family an error belongs to. -/
def category : Error → ErrorCategory
  | malformed .. | missingField .. | duplicateDefinition .. | duplicateCaseId .. => .load
  | unresolvedReference .. | circularReference .. | argumentMismatch .. => .load
  | invalidPattern .. | fileRead .. => .load
  | unresolvedVariable .. | unknownFunction .. | badArguments .. => .resolution
  | templateSyntax .. | cyclicVariable .. | recursionLimit .. => .resolution
  | stepFailed .. | functionFailed .. | json .. => .execution
  | assertion .. => .assertion
  | configuration .. | configurationSyntax .. => .configuration
  | io .. => .io

/-- Whether an error stops a run before any case is run. -/
def isLoadError (e : Error) : Bool :=
  e.category = .load

/-- The code of an error in reports. -/
def kind : Error → String
  | malformed .. => "MALFORMED_DEFINITION"
  | missingField .. => "MISSING_FIELD"
  | duplicateDefinition .. => "DUPLICATE_DEFINITION"
  | duplicateCaseId .. => "DUPLICATE_CASE_ID"
  | unresolvedReference .. => "UNRESOLVED_REFERENCE"
  | circularReference .. => "CIRCULAR_REFERENCE"
  | argumentMismatch .. => "ARGUMENT_MISMATCH"
  | invalidPattern .. => "INVALID_PATTERN"
  | unresolvedVariable .. => "UNRESOLVED_VARIABLE"
  | unknownFunction .. => "UNKNOWN_FUNCTION"
  | badArguments .. => "ARGUMENT_ERROR"
  | templateSyntax .. => "TEMPLATE_SYNTAX"
  | cyclicVariable .. => "CYCLIC_VARIABLE"
  | recursionLimit .. => "RECURSION_LIMIT"
  | stepFailed .. => "STEP_FAILED"
  | functionFailed .. => "FUNCTION_FAILED"
  | assertion .. => "ASSERTION_FAILED"
  | configuration .. | configurationSyntax .. => "CONFIG"
  | io .. => "IO"
  | fileRead .. => "FILE_READ"
  | json .. => "JSON"

/-- The text of an error. -/
def message : Error → String
  | malformed location reason => s!"Malformed definition in '{location}': {reason}"
  | missingField field location => s!"Missing mandatory field '{field}' in {location}"
  | duplicateDefinition kind name first second =>
    s!"Duplicate {kind} '{name}' (first defined in '{first}', again in '{second}')"
  | duplicateCaseId id => s!"Duplicate case id '{id}' in the flattened run"
  | unresolvedReference kind name searched =>
    s!"Unresolved {kind} reference '{name}'. Searched: {searched}"
  | circularReference chain => s!"Circular suite reference: {chain}"
  | argumentMismatch name expected given =>
    s!"Reference '{name}' passes {given} argument(s) but its definition declares {expected}"
  | invalidPattern name reason => s!"Invalid pattern '{name}': {reason}"
  | unresolvedVariable name => s!"Unresolved variable '${name}'"
  | unknownFunction name => s!"Unknown function '{name}'"
  | badArguments function problem => s!"Bad arguments for '{function}': {problem}"
  | templateSyntax input problem => s!"Template syntax error in '{input}': {problem}"
  | cyclicVariable chain => s!"Self-referential variable chain: {chain}"
  | recursionLimit limit => s!"Template nesting exceeds the maximum depth of {limit}"
  | stepFailed kind problem => s!"Step '{kind}' failed: {problem}"
  | functionFailed function problem => s!"Function '{function}' failed: {problem}"
  | assertion problem => s!"Assertion failed: {problem}"
  | configuration problem => s!"Configuration error: {problem}"
  | configurationSyntax problem => s!"Invalid configuration file: {problem}"
  | io problem => s!"IO error: {problem}"
  | fileRead path problem => s!"Failed to read file '{path}': {problem}"
  | json problem => s!"JSON error: {problem}"

end Error

end Casebook
