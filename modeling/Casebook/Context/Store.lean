import Casebook.Error
import Casebook.Pattern.Basic
import Casebook.Value.Basic

/-!
# The store of a run

One store lives as long as a run. It binds variables, holds the patterns of the cases and the
result of the last step. A variable is bound to a value as it is, or deferred: the texts of a
deferred value are templates, evaluated each time the variable is read.

The values of the variables and the marks of the deferred ones are kept apart. Every operation that
writes the one writes the other too, so a mark never outlives the variable it was made for, and
together they are one map of names (`Store.find?`).
-/

namespace Casebook

/-- What a variable is bound to. -/
structure Binding where
  value : Value
  /-- Whether the texts of the value are templates. -/
  deferred : Bool
  deriving Inhabited

/-- The store of a run. -/
structure Store where
  /-- The values of the variables. -/
  values : Dict Value
  /-- The marks of the deferred variables. -/
  deferred : Dict Unit
  /-- What is marked is bound. -/
  bound : ∀ name, deferred.contains name = true → values.contains name = true
  patterns : Dict Pattern
  lastResult : Option Value
  /-- The time that is shown to verbs, in milliseconds since the beginning of 1970. -/
  clock : Nat

namespace Store

/-- The store at the beginning of a run. -/
def empty (clock : Nat) : Store :=
  { values := [], deferred := [], bound := nofun, patterns := [], lastResult := none, clock }

/-- The value a variable is bound to, deferred texts as they are. -/
def get? (s : Store) (name : String) : Option Value :=
  s.values.get? name

/-- The value a variable is bound to, or an error if it is unbound. -/
def require (s : Store) (name : String) : Except Error Value :=
  match s.get? name with
  | some v => .ok v
  | none => .error (.unresolvedVariable name)

/-- Whether a variable is bound. -/
def contains (s : Store) (name : String) : Bool :=
  s.values.contains name

/-- Whether a variable is deferred. -/
def isDeferred (s : Store) (name : String) : Bool :=
  s.deferred.contains name

/-- The binding of a variable. -/
def find? (s : Store) (name : String) : Option Binding :=
  (s.get? name).map fun v => ⟨v, s.isDeferred name⟩

/-- Bind a variable to a value as it is. -/
def set (s : Store) (name : String) (v : Value) : Store :=
  { s with
    values := s.values.insert name v
    deferred := s.deferred.erase name
    bound other h := by
      rw [Dict.contains_erase, Bool.and_eq_true] at h
      rw [Dict.contains_insert, s.bound other h.2, Bool.or_true] }

/-- Bind a variable to a deferred value. -/
def define (s : Store) (name : String) (v : Value) : Store :=
  { s with
    values := s.values.insert name v
    deferred := s.deferred.insert name ()
    bound other h := by
      rw [Dict.contains_insert, Bool.or_eq_true] at h ⊢
      exact h.imp_right (s.bound other) }

/-- Unbind a variable. -/
def remove (s : Store) (name : String) : Store :=
  { s with
    values := s.values.erase name
    deferred := s.deferred.erase name
    bound other h := by
      rw [Dict.contains_erase, Bool.and_eq_true] at h ⊢
      exact h.imp_right (s.bound other) }

/-- Bind variables one after another to values as they are. -/
def setAll (s : Store) (entries : List (String × Value)) : Store :=
  entries.foldl (fun s entry => s.set entry.1 entry.2) s

/-- Bind variables one after another to deferred values. -/
def defineAll (s : Store) (entries : List (String × Value)) : Store :=
  entries.foldl (fun s entry => s.define entry.1 entry.2) s

/-- The values of all variables, deferred texts as they are. -/
def snapshot (s : Store) : Dict Value :=
  s.values

/-- The names of the deferred variables. -/
def deferredNames (s : Store) : List String :=
  s.deferred.keys

/-- The pattern of a name. -/
def pattern? (s : Store) (name : String) : Option Pattern :=
  s.patterns.get? name

/-- Give a pattern a name. -/
def setPattern (s : Store) (name : String) (p : Pattern) : Store :=
  { s with patterns := s.patterns.insert name p }

/-- Record the result of a step. -/
def setLastResult (s : Store) (v : Value) : Store :=
  { s with lastResult := some v }

/-! ## One map of names -/

theorem find?_eq_some_iff {s : Store} {name : String} {b : Binding} :
    s.find? name = some b ↔ s.get? name = some b.value ∧ s.isDeferred name = b.deferred := by
  obtain ⟨v, deferred⟩ := b
  simp only [find?, Option.map_eq_some_iff, Binding.mk.injEq]
  constructor
  · rintro ⟨_, hv, rfl, hdeferred⟩
    exact ⟨hv, hdeferred⟩
  · rintro ⟨hv, hdeferred⟩
    exact ⟨v, hv, rfl, hdeferred⟩

/-- A variable that is deferred is bound, so it has a binding. -/
theorem isDeferred_eq (s : Store) (name : String) :
    s.isDeferred name = (s.find? name).any Binding.deferred := by
  rw [find?, Option.any_map, get?]
  cases hvalue : s.values.get? name with
  | some v => rfl
  | none =>
    rw [Option.any_none, Bool.eq_false_iff]
    intro hdeferred
    have hbound := s.bound name hdeferred
    rw [Dict.contains, hvalue] at hbound
    cases hbound

theorem contains_eq (s : Store) (name : String) : s.contains name = (s.find? name).isSome := by
  rw [find?, Option.isSome_map]
  rfl

/-- The value of a binding is what is got. -/
theorem map_value_find? (s : Store) (name : String) :
    (s.find? name).map Binding.value = s.get? name := by
  rw [find?, Option.map_map]
  exact Option.map_id'

/-- An operation that leaves the value and the mark of a variable leaves its binding. -/
theorem find?_congr {s s' : Store} {name : String}
    (hvalue : s.values.get? name = s'.values.get? name)
    (hmark : s.deferred.get? name = s'.deferred.get? name) : s.find? name = s'.find? name := by
  simp only [find?, get?, isDeferred, Dict.contains, hvalue, hmark]

@[simp] theorem find?_set_self (s : Store) (name : String) (v : Value) :
    (s.set name v).find? name = some ⟨v, false⟩ := by
  simp [find?, get?, isDeferred, set, Dict.contains]

@[simp] theorem find?_define_self (s : Store) (name : String) (v : Value) :
    (s.define name v).find? name = some ⟨v, true⟩ := by
  simp [find?, get?, isDeferred, define, Dict.contains]

@[simp] theorem find?_remove_self (s : Store) (name : String) :
    (s.remove name).find? name = none := by
  simp [find?, get?, remove]

theorem find?_set_of_ne (s : Store) {name other : String} (v : Value) (h : name ≠ other) :
    (s.set name v).find? other = s.find? other :=
  find?_congr (Dict.get?_insert_of_ne _ _ h) (Dict.get?_erase_of_ne _ h)

theorem find?_define_of_ne (s : Store) {name other : String} (v : Value) (h : name ≠ other) :
    (s.define name v).find? other = s.find? other :=
  find?_congr (Dict.get?_insert_of_ne _ _ h) (Dict.get?_insert_of_ne _ _ h)

theorem find?_remove_of_ne (s : Store) {name other : String} (h : name ≠ other) :
    (s.remove name).find? other = s.find? other :=
  find?_congr (Dict.get?_erase_of_ne _ h) (Dict.get?_erase_of_ne _ h)

end Store

/-- A computation on the store; what it did before an error stays done. -/
abbrev StoreAction (α : Type) := ExceptT Error (StateM Store) α

end Casebook
