import Casebook.Proofs.Context.Invocations
import Casebook.Proofs.Context.Limits
import Casebook.Proofs.Run.Independence

/-!
# What evaluation writes

Of the built-in verbs four bind variables: `Set` binds its keywords, and the others bind the
variable that their first argument names to the value they give (`Builtin.binds`). They bind them to
values as they are. Nothing else in an evaluation writes to the store, so an evaluation, however it
ends, leaves the store that it found with the bindings of the verbs it ran set one after another
(`Context.resolveValue_snd`, `Context.template_snd`, `Context.call_snd`). The patterns and the result
of the last step stay as they are.
-/

namespace Casebook

open Computation

/-! ## Bindings one after another -/

/-- What the last of some entries says of a name. -/
def lastOf {α : Type} (entries : List (String × α)) (name : String) : Option α :=
  (entries.reverse.find? fun entry => entry.1 = name).map Prod.snd

section LastOf

variable {α : Type}

/-- Later entries win. -/
theorem lastOf_append (entries more : List (String × α)) (name : String) :
    lastOf (entries ++ more) name = (lastOf more name).or (lastOf entries name) := by
  rw [lastOf, List.reverse_append, List.find?_append, Option.map_or]
  rfl

theorem lastOf_cons (entry : String × α) (entries : List (String × α)) (name : String) :
    lastOf (entry :: entries) name =
      (lastOf entries name).or (if entry.1 = name then some entry.2 else none) := by
  rw [← List.singleton_append, lastOf_append]
  congr 1
  by_cases h : entry.1 = name
  · simp [lastOf, h]
  · simp [lastOf, h]

end LastOf

namespace Store

theorem setAll_cons (s : Store) (entry : String × Value) (entries : List (String × Value)) :
    s.setAll (entry :: entries) = (s.set entry.1 entry.2).setAll entries := rfl

theorem setAll_append (s : Store) (entries more : List (String × Value)) :
    s.setAll (entries ++ more) = (s.setAll entries).setAll more :=
  List.foldl_append

/-- All of a store but its variables. -/
def rest (s : Store) : Dict Pattern × Option Value × Nat :=
  (s.patterns, s.lastResult, s.clock)

@[simp] theorem rest_setAll (s : Store) (entries : List (String × Value)) :
    (s.setAll entries).rest = s.rest := by
  induction entries generalizing s with
  | nil => rfl
  | cons entry entries ih => exact ih (s.set entry.1 entry.2)

@[simp] theorem lastResult_setAll (s : Store) (entries : List (String × Value)) :
    (s.setAll entries).lastResult = s.lastResult :=
  congrArg (fun rest => rest.2.1) (s.rest_setAll entries)

/-- A variable is bound to what the last entry for it says, as it is. -/
theorem find?_setAll (s : Store) (entries : List (String × Value)) (name : String) :
    (s.setAll entries).find? name =
      ((lastOf entries name).map fun v => ⟨v, false⟩).or (s.find? name) := by
  induction entries generalizing s with
  | nil => rfl
  | cons entry entries ih =>
    rw [setAll_cons, ih, lastOf_cons, Option.map_or, Option.or_assoc]
    congr 1
    by_cases h : entry.1 = name
    · subst h
      simp
    · rw [find?_set_of_ne s entry.2 h, if_neg h]
      rfl

end Store

/-! ## What verbs bind -/

namespace Builtin

/-- A variable with the value that a verb gave it, if it gave one. -/
def given (name : String) : Except Error Value → List (String × Value)
  | .ok v => [(name, v)]
  | .error _ => []

/-- What the built-in verb of a name binds when it is run on bound arguments, in order. -/
def binds (verb : String) (args : Arguments) (store : Store) : List (String × Value) :=
  match verb with
  | "Set" => args.named
  | "SetVar" => given (args.text 0) (exec (setVar args) store).1
  | "DyStrData" => given (args.text 0) (exec (dyStrData args) store).1
  | "DyJsonData" => given (args.text 0) (exec (dyJsonData args) store).1
  | _ => []

/-- An action on the store binds a variable to the value it gives, and does nothing else. -/
def BindsGiven (name : String) (action : StoreAction Value) : Prop :=
  ∀ store, (exec action store).2 = store.setAll (given name (exec action store).1)

section BindsGiven

variable {α : Type} {name : String}

theorem bindsGiven_bindTo (v : Value) : BindsGiven name (bindTo name v) :=
  fun _ => rfl

theorem bindsGiven_throw (e : Error) : BindsGiven name (throw e) :=
  fun _ => rfl

/-- The store may be looked at first. -/
theorem BindsGiven.bind {action : StoreAction α} {f : α → StoreAction Value}
    (haction : Moves (Same id) action) (hf : ∀ a, BindsGiven name (f a)) :
    BindsGiven name (action >>= f) := by
  intro store
  have hsame := haction store
  rw [exec_bind]
  rcases hexec : exec action store with ⟨e | a, store'⟩ <;> rw [hexec] at hsame
  · exact hsame
  · obtain rfl : store' = store := hsame
    exact hf a store'

theorem bindsGiven_setVar (args : Arguments) : BindsGiven (args.text 0) (setVar args) := by
  unfold setVar
  split
  · exact bindsGiven_throw _
  · exact bindsGiven_bindTo _

theorem moves_resultFor (function : String) : Moves (Same id) (resultFor function) := by
  refine moves_bind moves_get fun store => ?_
  split
  · exact moves_pure _
  · exact moves_throw _

theorem bindsGiven_dyStrData (args : Arguments) : BindsGiven (args.text 0) (dyStrData args) := by
  refine BindsGiven.bind (fun _ => rfl) fun index => BindsGiven.bind moves_get fun store => ?_
  split
  · exact bindsGiven_throw _
  · refine BindsGiven.bind (moves_resultFor _) fun result => ?_
    split
    · exact bindsGiven_bindTo _
    · exact bindsGiven_throw _

theorem bindsGiven_dyJsonData (args : Arguments) : BindsGiven (args.text 0) (dyJsonData args) := by
  refine BindsGiven.bind (moves_resultFor _) fun result => ?_
  split
  · exact bindsGiven_bindTo _
  · exact bindsGiven_throw _

end BindsGiven

/-! ### What verbs look at -/

theorem looksAt_throw {α : Type} (e : Error) :
    LooksAt Store.rest (throw e : StoreAction α) :=
  fun _ _ h => ⟨rfl, h⟩

theorem looksAt_bindTo (name : String) (v : Value) : LooksAt Store.rest (bindTo name v) :=
  fun _ _ h => ⟨rfl, h⟩

theorem looksAt_setVar (args : Arguments) : LooksAt Store.rest (setVar args) := by
  unfold setVar
  split
  · exact looksAt_throw _
  · exact looksAt_bindTo _ _

theorem looksAt_resultFor (function : String) : LooksAt Store.rest (resultFor function) := by
  have hresult {s s' : Store} (h : s.rest = s'.rest) : s.lastResult = s'.lastResult :=
    congrArg (fun rest => rest.2.1) h
  refine looksAt_get_bind_of_congr (fun s s' h => by rw [hresult h]) fun store => ?_
  split
  · exact looksAt_pure _
  · exact looksAt_throw _

theorem looksAt_dyStrData (args : Arguments) : LooksAt Store.rest (dyStrData args) := by
  have hindex : LooksAt Store.rest
      (ExceptT.mk (pure (groupIndex (args.get? 2))) : StoreAction ℕ) := fun _ _ h => ⟨rfl, h⟩
  have hpattern {s s' : Store} (h : s.rest = s'.rest) : s.pattern? = s'.pattern? :=
    congrArg (fun rest => rest.1.get?) h
  refine hindex.bind fun index =>
    looksAt_get_bind_of_congr (fun s s' h => by rw [hpattern h]) fun store => ?_
  split
  · exact looksAt_throw _
  · refine (looksAt_resultFor _).bind fun result => ?_
    split
    · exact looksAt_bindTo _ _
    · exact looksAt_throw _

theorem looksAt_dyJsonData (args : Arguments) : LooksAt Store.rest (dyJsonData args) := by
  refine (looksAt_resultFor _).bind fun result => ?_
  split
  · exact looksAt_bindTo _ _
  · exact looksAt_throw _

end Builtin

/-- A verb binds what the built-in verb of this name binds, and does nothing else to the store. A
verb that reads a variable first binds nothing. -/
def Verb.WritesAs (name : String) (verb : Verb) : Prop :=
  match verb.body with
  | .direct run =>
    ∀ args store, (exec (run args) store).2 = store.setAll (Builtin.binds name args store)
  | .onVariable run =>
    ∀ args found store,
      Builtin.binds name args store = [] ∧ (exec (run args found) store).2 = store

namespace Builtin

theorem writesAs_of_mem_all : ∀ b ∈ all, b.verb.WritesAs b.name := by
  simp only [all, List.forall_mem_cons]
  exact ⟨fun _ _ => rfl, bindsGiven_setVar, fun _ _ _ => ⟨rfl, rfl⟩, bindsGiven_dyStrData,
    bindsGiven_dyJsonData, fun _ _ => rfl, fun args found store => ⟨rfl, moves_verifyVar args found store⟩,
    moves_verifyEqual, moves_verifyCode, moves_verifyContain, moves_verifyNotNull,
    List.forall_mem_nil _⟩

theorem writesAs_registry : ∀ name verb, registry.get? name = some verb → verb.WritesAs name :=
  forall_registry writesAs_of_mem_all

end Builtin

/-! ## What evaluations write -/

/-- What the verbs that a journal tells of bind, in order. -/
def bindsIn (journal : List Event) (store : Store) : List (String × Value) :=
  (invocationsIn journal).flatMap fun run => Builtin.binds run.1 run.2 store

theorem bindsIn_append (later earlier : List Event) (store : Store) :
    bindsIn (later ++ earlier) store = bindsIn earlier store ++ bindsIn later store := by
  simp only [bindsIn, invocationsIn, List.filterMap_append, List.reverse_append,
    List.flatMap_append]

theorem bindsIn_invoked (name : String) (args : Arguments) (store : Store) :
    bindsIn [.invoked name args] store = Builtin.binds name args store := by
  simp [bindsIn, invocationsIn, Event.invocation?]

/-- What verbs bind does not depend on the variables. -/
theorem Builtin.binds_congr {store store' : Store} (h : store.rest = store'.rest) (name : String)
    (args : Arguments) : binds name args store = binds name args store' := by
  have hgiven {action : StoreAction Value} (haction : LooksAt Store.rest action) :
      given (args.text 0) (exec action store).1 = given (args.text 0) (exec action store').1 :=
    congrArg (given _) (haction store store' h).1
  unfold binds
  split
  · rfl
  · exact hgiven (looksAt_setVar args)
  · exact hgiven (looksAt_dyStrData args)
  · exact hgiven (looksAt_dyJsonData args)
  · rfl

theorem bindsIn_congr {store store' : Store} (h : store.rest = store'.rest)
    (journal : List Event) : bindsIn journal store = bindsIn journal store' := by
  simp only [bindsIn, Builtin.binds_congr h]

/-- The store was left as it was found, with what the verbs that were noted bind. -/
def Bound (noted : List Event) (store store' : Store) : Prop :=
  store' = store.setAll (bindsIn noted store)

/-- Runs of built-in verbs bind one after another. -/
theorem records_bound {rules : Rules} (hverbs : rules.verbs = Builtin.registry) :
    Records rules Bound where
  nil _ := rfl
  append {noted more store store₁ store₂} h h' := by
    -- The later verbs bind the same in the store that the earlier ones left.
    have hrest : store₁.rest = store.rest := by rw [h, Store.rest_setAll]
    rw [Bound, h', bindsIn_congr hrest, h, bindsIn_append, Store.setAll_append]
  opened _ _ _ := rfl
  closed _ := rfl
  direct {name verb run} hverb hbody args store := by
    rw [hverbs] at hverb
    have hwrites := Builtin.writesAs_registry name verb hverb
    rw [Verb.WritesAs, hbody] at hwrites
    rw [Bound, bindsIn_invoked]
    exact hwrites args store
  onVariable {name verb run} hverb hbody args found {noted store store'} h := by
    rw [hverbs] at hverb
    have hwrites := Builtin.writesAs_registry name verb hverb
    rw [Verb.WritesAs, hbody] at hwrites
    -- The verb itself binds nothing, whatever was read.
    rw [Bound, bindsIn_append, bindsIn_invoked, (hwrites args found store).1, List.nil_append,
      (hwrites args found store').2]
    exact h

/-! ## What evaluations in a context write -/

namespace Context

variable {α : Type}

/-- What an evaluation in a context binds, in order. -/
def writes (c : Context) (e : Evaluation α) : List (String × Value) :=
  bindsIn (exec e ⟨c.store, []⟩).2.journal c.store

/-- A context with some variables bound one after another. -/
def setAll (c : Context) (entries : List (String × Value)) : Context :=
  { c with store := c.store.setAll entries }

/-- An evaluation leaves the context that it found, with what it wrote. -/
theorem run_snd_of_noting (c : Context) {e : Evaluation α} (he : Noting Bound α e) :
    (c.run e).2 = c.setAll (c.writes e) := by
  obtain ⟨noted, hjournal, hstore⟩ := he ⟨c.store, []⟩
  rw [List.append_nil] at hjournal
  show { c with store := (exec e ⟨c.store, []⟩).2.store } = _
  rw [hstore, ← hjournal]
  rfl

variable {c : Context} (hverbs : c.verbs = Builtin.registry)

include hverbs

theorem noting_level : Pervades.OfLevel (Noting Bound) c.level :=
  have hpervades : Pervades c.rules (Noting Bound) :=
    pervades_noting (records_bound hverbs)
  hpervades.tower (hpervades.fresh c.readings) c.limit 0

/-- Evaluating the texts of a value leaves what the verbs in them bind. -/
theorem resolveValue_snd (v : Value) :
    (c.resolveValue v).2 = c.setAll (c.writes (c.level.value [] v)) :=
  c.run_snd_of_noting ((noting_level hverbs).value [] v)

theorem template_snd (segments : List Segment) :
    (c.run (c.level.template [] segments)).2 =
      c.setAll (c.writes (c.level.template [] segments)) :=
  c.run_snd_of_noting ((noting_level hverbs).template [] segments)

/-- Calling a verb leaves what it binds, and what the verbs in the values that it reads bind. -/
theorem call_snd (name : String) (args : Arguments) :
    (c.call name args).2 =
      c.setAll (c.writes (c.rules.invoke (c.rules.fresh c.readings) name args)) :=
  have hpervades : Pervades c.rules (Noting Bound) :=
    pervades_noting (records_bound hverbs)
  c.run_snd_of_noting (hpervades.invoke (hpervades.fresh c.readings) name args)

end Context

end Casebook
