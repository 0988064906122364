import Casebook.Proofs.Context.Looking
import Casebook.Proofs.Context.Writes
import Casebook.Run.Runner
import Mathlib

/-!
# What a report shows of the variables

A report reads the deferred variables one after another, in the order of their names. Each is read
in the context that the readings before it left, so calls of binding verbs in deferred values show:
they change what the later ones are read as, and they stay. Concrete variables are shown as they are
bound all the same, since verbs never defer a variable. Main statement: besides this, as long as no
deferred value calls a binding verb a report leaves the context and shows each deferred variable as
it reads there.
-/

namespace Casebook

namespace Context

variable {c : Context} {name : String}

/-- The value of a variable that a report shows in a context. -/
def shown (c : Context) (name : String) (v : Value) : Value :=
  if c.store.isDeferred name then
    match (c.readVariable name).1 with
    | .ok expanded => expanded
    | .error _ => v
  else v

/-- The context after a variable was shown. -/
def afterShowing (c : Context) (name : String) : Context :=
  if c.store.isDeferred name then (c.readVariable name).2 else c

theorem shown_of_concrete (h : c.store.isDeferred name = false) (v : Value) :
    c.shown name v = v := by
  rw [shown, h]
  rfl

theorem shown_of_deferred (h : c.store.isDeferred name = true) (v : Value) :
    (∀ expanded, (c.readVariable name).1 = .ok expanded → c.shown name v = expanded) ∧
      ∀ e, (c.readVariable name).1 = .error e → c.shown name v = v := by
  rw [shown, if_pos h]
  refine ⟨fun expanded hread => ?_, fun e hread => ?_⟩
  · rw [hread]
  · rw [hread]

theorem setAll_append (c : Context) (entries more : List (String × Value)) :
    c.setAll (entries ++ more) = (c.setAll entries).setAll more :=
  congrArg (fun store => { c with store }) (c.store.setAll_append entries more)

/-- Binding variables to values as they are defers none. -/
theorem isDeferred_setAll (h : c.store.isDeferred name = false) (entries : List (String × Value)) :
    (c.setAll entries).store.isDeferred name = false := by
  rw [Store.isDeferred_eq] at h ⊢
  rw [setAll, Store.find?_setAll]
  cases lastOf entries name with
  | none => exact h
  | some v => rfl

/-- What is left after a variable was shown is what was there, with what verbs bound. -/
theorem exists_afterShowing_eq (hverbs : c.verbs = Builtin.registry) (name : String) :
    ∃ entries, c.afterShowing name = c.setAll entries := by
  unfold afterShowing
  split
  · exact ⟨_, template_snd hverbs [.var name]⟩
  · exact ⟨[], rfl⟩

end Context

namespace Runner

variable {c : Context}

theorem expandVariables_cons (c : Context) (name : String) (v : Value)
    (rest : List (String × Value)) :
    expandVariables c ((name, v) :: rest) =
      ((name, c.shown name v) :: (expandVariables (c.afterShowing name) rest).1,
        (expandVariables (c.afterShowing name) rest).2) := by
  rw [expandVariables, Context.shown, Context.afterShowing]
  by_cases hdeferred : c.store.isDeferred name = true
  · simp only [if_pos hdeferred]
    rcases c.readVariable name with ⟨e | expanded, left⟩ <;> rfl
  · simp only [if_neg hdeferred]

/-- A report names the variables that are bound, in their order. -/
theorem keys_expandVariables (c : Context) (entries : List (String × Value)) :
    (expandVariables c entries).1.keys = entries.map Prod.fst := by
  induction entries generalizing c with
  | nil => rfl
  | cons entry rest ih =>
    rw [expandVariables_cons]
    exact congrArg (entry.1 :: ·) (ih (c.afterShowing entry.1))

/-- A variable is shown in the context that the readings before it left. -/
theorem exists_get?_expandVariables (c : Context) {entries : Dict Value} {name : String} {v : Value}
    (h : entries.get? name = some v) :
    ∃ before after, entries = before ++ (name, v) :: after ∧
      (expandVariables c entries).1.get? name =
        some ((expandVariables c before).2.shown name v) := by
  induction entries generalizing c with
  | nil => cases h
  | cons entry rest ih =>
    obtain ⟨key, value⟩ := entry
    rw [Dict.get?_cons] at h
    rw [expandVariables_cons, Dict.get?_cons]
    by_cases hkey : key = name
    · subst hkey
      rw [if_pos rfl] at h ⊢
      cases h
      exact ⟨[], rest, rfl, rfl⟩
    · rw [if_neg hkey] at h ⊢
      obtain ⟨before, after, rfl, hshown⟩ := ih (c.afterShowing key) h
      refine ⟨(key, value) :: before, after, rfl, ?_⟩
      rw [hshown, expandVariables_cons]

/-- A report leaves the context that it found, with what the verbs that it ran bound. -/
theorem exists_expandVariables_eq (hverbs : c.verbs = Builtin.registry)
    (entries : List (String × Value)) :
    ∃ bound, (expandVariables c entries).2 = c.setAll bound := by
  induction entries generalizing c with
  | nil => exact ⟨[], rfl⟩
  | cons entry rest ih =>
    obtain ⟨first, hfirst⟩ := Context.exists_afterShowing_eq hverbs entry.1
    obtain ⟨more, hmore⟩ := ih (c := c.afterShowing entry.1) (hfirst ▸ hverbs)
    refine ⟨first ++ more, ?_⟩
    rw [expandVariables_cons, hmore, hfirst, Context.setAll_append]

/-- Where reading changes nothing, all variables are shown in the same context. -/
theorem expandVariables_of_readVariable (hread : ∀ name, (c.readVariable name).2 = c)
    (entries : List (String × Value)) :
    expandVariables c entries =
      (entries.map fun entry => (entry.1, c.shown entry.1 entry.2), c) := by
  have hafter (name : String) : c.afterShowing name = c := by
    unfold Context.afterShowing
    split
    · exact hread name
    · rfl
  induction entries with
  | nil => rfl
  | cons entry rest ih =>
    rw [expandVariables_cons, hafter, ih]
    rfl

/-- Where it does not matter when a variable is read, all are shown as at the first time. -/
theorem expandVariables_atTime
    (hread : ∀ clock name, (c.atTime clock).readVariable name =
      ((c.readVariable name).1, c.atTime clock))
    (clock : ℕ) (entries : List (String × Value)) :
    (expandVariables (c.atTime clock) entries).1 = (expandVariables c entries).1 := by
  have hsame (name : String) : (c.readVariable name).2 = c :=
    congrArg Prod.snd (hread c.store.clock name)
  have hshown (name : String) (v : Value) : (c.atTime clock).shown name v = c.shown name v := by
    unfold Context.shown
    rw [hread clock name]
    rfl
  have hthen : ∀ name, ((c.atTime clock).readVariable name).2 = c.atTime clock :=
    fun name => congrArg Prod.snd (hread clock name)
  rw [expandVariables_of_readVariable hthen, expandVariables_of_readVariable hsame]
  simp only [hshown]

/-! ## Reports -/

section Report

variable {r : Runner} {name : String} {v : Value}

/-- Concrete variables are shown as they are bound. -/
theorem get?_report_of_concrete (hverbs : r.bench.context.verbs = Builtin.registry)
    (results : List CaseResult) (hfind : r.bench.context.store.find? name = some ⟨v, false⟩) :
    (r.report results).1.context.get? name = some v := by
  obtain ⟨hvalue, hconcrete⟩ := Store.find?_eq_some_iff.mp hfind
  obtain ⟨before, after, -, hget⟩ := exists_get?_expandVariables r.bench.context hvalue
  obtain ⟨bound, hbound⟩ := exists_expandVariables_eq hverbs before
  refine hget.trans ?_
  rw [hbound, Context.shown_of_concrete (Context.isDeferred_setAll hconcrete bound)]

/-- Where reading changes nothing a report leaves the runner as it is. -/
theorem report_snd_of_readVariable
    (hread : ∀ name, (r.bench.context.readVariable name).2 = r.bench.context)
    (results : List CaseResult) : (r.report results).2 = r := by
  have hupdate : (r.report results).2 = r.updateContext fun _ =>
      (expandVariables r.bench.context r.bench.context.store.values).2 := rfl
  rw [hupdate, expandVariables_of_readVariable hread]
  rfl

/-- Where reading changes nothing deferred variables are shown as they read, or as they are. -/
theorem get?_report_of_deferred
    (hread : ∀ name, (r.bench.context.readVariable name).2 = r.bench.context)
    (results : List CaseResult) (hfind : r.bench.context.store.find? name = some ⟨v, true⟩) :
    (∀ expanded, (r.bench.context.readVariable name).1 = .ok expanded →
        (r.report results).1.context.get? name = some expanded) ∧
      ∀ e, (r.bench.context.readVariable name).1 = .error e →
        (r.report results).1.context.get? name = some v := by
  obtain ⟨hvalue, hdeferred⟩ := Store.find?_eq_some_iff.mp hfind
  obtain ⟨before, after, -, hget⟩ := exists_get?_expandVariables r.bench.context hvalue
  rw [expandVariables_of_readVariable hread before] at hget
  obtain ⟨hok, herror⟩ := Context.shown_of_deferred hdeferred v
  exact ⟨fun expanded h => hget.trans (congrArg some (hok expanded h)),
    fun e h => hget.trans (congrArg some (herror e h))⟩

end Report

/-- A runner with a deferred greeting that calls a verb. -/
def greeting : Runner :=
  (start 0).updateContext fun c => { c with
    store := (c.store.set "name" (.string "x")).define "greeting"
      (.string "Hi $\x7bGetVar(name)\x7d") }

/-- A case that binds a variable, with a deferred variable that binds it too and one that reads
it. -/
def rebinding : Case :=
  { Case.blank "A" "d" with
    globals := [("a", .string "$\x7bSetVar(b, 2)\x7d"), ("z", .string "$b")]
    preCommand := [⟨"SetVar(b, 1)",
      ⟨"SetVar", [.literal none (.string "b") "b", .literal none (.nat 1) "1"]⟩⟩]
    steps := [⟨.webDriver, .object [], none⟩] }

end Runner

end Casebook
