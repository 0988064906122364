import Casebook.Context.Store
import Casebook.Definition.Step

/-!
# Executors

Steps of a kind are carried out by the executor that is registered for it. An executor sees the
store but does not change it; it may answer differently each time, so it is told how often it was
called before.
-/

namespace Casebook

/-- What carries out the steps of a kind. -/
structure Executor where
  /-- The answer to a step with these fields, after so many calls. -/
  answer : (calls : Nat) → StepKind → (fields : Value) → Store → Except Error Value

/-- An executor under the kind it is registered for. -/
structure Registered where
  kind : StepKind
  executor : Executor
  /-- How often it was called. -/
  calls : Nat

/-- The executors of a run, in order of their kinds. -/
structure Executors where
  entries : List Registered

namespace Executors

/-- No executors. -/
def empty : Executors := ⟨[]⟩

/-- Put an executor into its place, where it takes over from one of the same kind. -/
def insert (new : Registered) : List Registered → List Registered
  | [] => [new]
  | r :: rest =>
    if r.kind = new.kind then new :: rest
    else if new.kind.before r.kind then new :: r :: rest
    else r :: insert new rest

/-- Register an executor for a kind. -/
def register (es : Executors) (kind : StepKind) (executor : Executor) : Executors :=
  ⟨insert ⟨kind, executor, 0⟩ es.entries⟩

/-- The executor of a kind. -/
def find? (es : Executors) (kind : StepKind) : Option Registered :=
  es.entries.find? fun r => r.kind = kind

/-- Whether a kind has an executor. -/
def contains (es : Executors) (kind : StepKind) : Bool :=
  (es.find? kind).isSome

/-- The kinds that have an executor, in order. -/
def kinds (es : Executors) : List StepKind :=
  es.entries.map Registered.kind

/-- Whether there is no executor. -/
def isEmpty (es : Executors) : Bool :=
  es.entries.isEmpty

/-- Count a call of the executor of a kind. -/
def countCall (es : Executors) (kind : StepKind) : Executors :=
  ⟨es.entries.map fun r => if r.kind = kind then { r with calls := r.calls + 1 } else r⟩

/-- Call the executor of a kind; none if there is no such executor. -/
def execute (es : Executors) (kind : StepKind) (fields : Value) (store : Store) :
    Option (Except Error Value × Executors) :=
  (es.find? kind).map fun r => (r.executor.answer r.calls kind fields store, es.countCall kind)

/-! ## Laws -/

/-- Counting a call leaves every executor under its kind. -/
@[simp] theorem contains_countCall (es : Executors) (kind : StepKind) :
    (es.countCall kind).contains = es.contains := by
  funext other
  simp only [contains, find?, countCall, List.find?_map, Option.isSome_map]
  congr 2
  funext r
  simp only [Function.comp_apply]
  split <;> rfl

end Executors

end Casebook
