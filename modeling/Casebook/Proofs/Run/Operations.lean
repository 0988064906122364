import Casebook.Proofs.Run.Steps
import Casebook.Run.Runner

/-!
# The store as one map

A store keeps the values of the variables apart from the marks of the deferred ones. Main statement:
whatever is done to it, be it directly, by the globals of cases, by steps, by verbs or by
evaluations that succeed or fail, all ways to read it agree with one map from names to bindings. In
this map a variable that is set is bound to a value as it is, and so is one that a verb binds; one
that is defined is deferred; and one that is removed is not bound at all. A variable is deferred if
and only if it was defined when it was last written to, and what is deferred is bound.

A case that is run does such operations one after another (`Case.performedBy_runPhases`), so the
same holds of the store that it leaves.
-/

namespace Casebook

open Casebook.Computation Running

/-! ## Writes -/

/-- What is written to a variable. -/
inductive Write where
  /-- It is bound to a value as it is. -/
  | concrete (name : String) (v : Value)
  /-- It is bound to a deferred value. -/
  | deferred (name : String) (v : Value)
  /-- It is unbound. -/
  | removed (name : String)

/-- What names are bound to. -/
abbrev Bindings := String → Option Binding

namespace Write

/-- The variable that is written to. -/
def name : Write → String
  | concrete name _ => name
  | deferred name _ => name
  | removed name => name

/-- What the variable is bound to then. -/
def binding? : Write → Option Binding
  | concrete _ v => some ⟨v, false⟩
  | deferred _ v => some ⟨v, true⟩
  | removed _ => none

/-- Variables are bound one after another to values as they are. -/
def concretes (entries : List (String × Value)) : List Write :=
  entries.map fun entry => concrete entry.1 entry.2

/-- Variables are bound one after another to deferred values. -/
def deferreds (entries : List (String × Value)) : List Write :=
  entries.map fun entry => deferred entry.1 entry.2

end Write

namespace Bindings

/-- The map once something was written. -/
def write (m : Bindings) (w : Write) : Bindings :=
  Function.update m w.name w.binding?

/-- A map that differs in nothing but what was written is the one that it was written to. -/
theorem eq_write {m m' : Bindings} {w : Write} (hself : m' w.name = w.binding?)
    (hother : ∀ name, w.name ≠ name → m' name = m name) : m' = m.write w := by
  funext name
  by_cases h : w.name = name
  · subst h
    rw [hself, write, Function.update_self]
  · rw [hother name h, write, Function.update_of_ne (Ne.symm h)]

/-- The map once some things were written one after another. -/
def writeAll (m : Bindings) (ws : List Write) : Bindings :=
  ws.foldl write m

theorem writeAll_append (m : Bindings) (ws more : List Write) :
    m.writeAll (ws ++ more) = (m.writeAll ws).writeAll more :=
  List.foldl_append

/-- What was written to a name last is what it is bound to. -/
theorem writeAll_apply (m : Bindings) (ws : List Write) (name : String) :
    m.writeAll ws name =
      match ws.reverse.find? fun w => w.name = name with
      | some w => w.binding?
      | none => m name := by
  -- The induction is from the end, where the last write is.
  induction ws using List.reverseRecOn with
  | nil => rfl
  | append_singleton ws w ih =>
    rw [writeAll_append, List.reverse_append, List.reverse_singleton, List.singleton_append,
      List.find?_cons]
    show Function.update (m.writeAll ws) w.name w.binding? name = _
    by_cases h : w.name = name
    · subst h
      simp
    · rw [Function.update_of_ne (Ne.symm h), ih]
      simp [h]

end Bindings

/-! ## Writes to the store -/

namespace Store

theorem find?_set (s : Store) (name : String) (v : Value) :
    (s.set name v).find? = Bindings.write s.find? (.concrete name v) :=
  Bindings.eq_write (find?_set_self s name v) fun _ h => find?_set_of_ne s v h

theorem find?_define (s : Store) (name : String) (v : Value) :
    (s.define name v).find? = Bindings.write s.find? (.deferred name v) :=
  Bindings.eq_write (find?_define_self s name v) fun _ h => find?_define_of_ne s v h

theorem find?_remove (s : Store) (name : String) :
    (s.remove name).find? = Bindings.write s.find? (.removed name) :=
  Bindings.eq_write (find?_remove_self s name) fun _ h => find?_remove_of_ne s h

/-- Variables that are set one after another are written one after another. -/
theorem find?_setAll_eq (s : Store) (entries : List (String × Value)) :
    (s.setAll entries).find? = Bindings.writeAll s.find? (Write.concretes entries) := by
  induction entries generalizing s with
  | nil => rfl
  | cons entry entries ih =>
    rw [setAll_cons, ih, find?_set]
    rfl

theorem find?_defineAll_eq (s : Store) (entries : List (String × Value)) :
    (s.defineAll entries).find? =
      Bindings.writeAll s.find? (Write.deferreds entries) := by
  induction entries generalizing s with
  | nil => rfl
  | cons entry entries ih =>
    show ((s.define entry.1 entry.2).defineAll entries).find? = _
    rw [ih, find?_define]
    rfl

/-- Patterns are no variables. -/
theorem find?_setPatterns (s : Store) (entries : Dict Pattern) :
    (entries.foldl (fun s entry => s.setPattern entry.1 entry.2) s).find? = s.find? := by
  induction entries generalizing s with
  | nil => rfl
  | cons entry entries ih => exact ih (s.setPattern entry.1 entry.2)

end Store

/-! ## Operations -/

/-- What operations work on. -/
def stage (s : CaseRun) : Context × Executors :=
  (s.bench.context, s.bench.executors)

/-- What a case binds at its start. -/
theorem stage_exec_bindGlobals (c : Case) (s : CaseRun) :
    stage (exec (Case.bindGlobals c) s).2 = ({ s.bench.context with
      store := c.patterns.foldl (fun store entry => store.setPattern entry.1 entry.2)
        (s.bench.context.store.defineAll c.globals) }, s.bench.executors) := by
  unfold Case.bindGlobals
  by_cases hb : (!c.globals.isEmpty || !c.patterns.isEmpty) = true
  · rw [if_pos hb]
    rfl
  · rw [if_neg hb]
    rfl

/-- What is done to the store of a run. -/
inductive Operation where
  | set (name : String) (v : Value)
  | define (name : String) (v : Value)
  | remove (name : String)
  /-- Bind variables before a run. -/
  | seed (values : Dict Value)
  /-- Bind the variables and patterns of a case. -/
  | bindGlobals (c : Case)
  /-- Carry out a step, which may bind its result. -/
  | step (step : Step)
  /-- Call a verb with arguments that were evaluated already. -/
  | call (verb : String) (args : Arguments)
  /-- Evaluate the texts of a value. -/
  | resolve (v : Value)
  /-- Evaluate an action. -/
  | action (a : Action)
  /-- Read a variable as a template does. -/
  | read (name : String)

namespace Operation

/-- The running case that an operation leaves, be it with an error. -/
def perform (op : Operation) (s : CaseRun) : CaseRun :=
  match op with
  | set name v => (exec (updateStore fun store => store.set name v) s).2
  | define name v => (exec (updateStore fun store => store.define name v) s).2
  | remove name => (exec (updateStore fun store => store.remove name) s).2
  | seed values => (exec (update fun b => (Runner.seed ⟨b, Case.run⟩ values).bench) s).2
  | bindGlobals c => (exec (Case.bindGlobals c) s).2
  | step t => (exec (Case.runStep t) s).2
  | call verb args => (exec (evaluate fun c => c.call verb args) s).2
  | resolve v => (exec (evaluate fun c => c.resolveValue v) s).2
  | action a => (exec (Case.runAction a) s).2
  | read name => (exec (evaluate fun c => c.readVariable name) s).2

/-- The running case that operations leave. Each is performed whatever came of the others. -/
def performAll (ops : List Operation) (s : CaseRun) : CaseRun :=
  ops.foldl (fun s op => op.perform s) s

/-- What an operation writes. Globals are deferred; the results of steps are not, nor is anything
that verbs bind in an evaluation. -/
def writes (op : Operation) (s : CaseRun) : List Write :=
  let context := s.bench.context
  match op with
  | set name v => [.concrete name v]
  | define name v => [.deferred name v]
  | remove name => [.removed name]
  | seed values => Write.concretes values
  | bindGlobals c => Write.deferreds c.globals
  | step t => Write.concretes (Turn.mk t s).writes
  | call verb args =>
    Write.concretes <| context.writes <|
      context.rules.invoke (context.rules.fresh context.readings) verb args
  | resolve v => Write.concretes (context.writes (context.level.value [] v))
  | action a => Write.concretes (context.writes (context.level.template [] [.call a.call]))
  | read name => Write.concretes (context.writes (context.level.template [] [.var name]))

/-- What operations write one after another. -/
def writesOf : List Operation → CaseRun → List Write
  | [], _ => []
  | op :: rest, s => op.writes s ++ writesOf rest (op.perform s)

/-- A running case is left in a context with the same verbs, in which some things were written. -/
structure Wrote (s : CaseRun) (ws : List Write) (s' : CaseRun) : Prop where
  verbs : s'.bench.context.verbs = s.bench.context.verbs
  find? : s'.bench.context.store.find? = Bindings.writeAll s.bench.context.store.find? ws

theorem wrote_setAll {s s' : CaseRun} {entries : List (String × Value)}
    (h : s'.bench.context = s.bench.context.setAll entries) :
    Wrote s (Write.concretes entries) s' := by
  refine ⟨by rw [h]; rfl, ?_⟩
  rw [h]
  exact Store.find?_setAll_eq _ entries

/-- An operation writes what is said of it. -/
theorem wrote_perform (op : Operation) (s : CaseRun)
    (hverbs : s.bench.context.verbs = Builtin.registry) :
    Wrote s (op.writes s) (op.perform s) := by
  cases op with
  | set name v => exact ⟨rfl, Store.find?_set _ name v⟩
  | define name v => exact ⟨rfl, Store.find?_define _ name v⟩
  | remove name => exact ⟨rfl, Store.find?_remove _ name⟩
  | seed values => exact wrote_setAll rfl
  | bindGlobals c =>
    have hcontext : ((bindGlobals c).perform s).bench.context = { s.bench.context with
        store := c.patterns.foldl (fun store entry => store.setPattern entry.1 entry.2)
          (s.bench.context.store.defineAll c.globals) } :=
      congrArg Prod.fst (stage_exec_bindGlobals c s)
    constructor
    · rw [hcontext]
    · rw [hcontext]
      exact (Store.find?_setPatterns _ _).trans (Store.find?_defineAll_eq _ _)
  | step t =>
    have hcontext : ((step t).perform s).bench.context =
        s.bench.context.written (Turn.mk t s).writes (Turn.mk t s).fate.value? :=
      (Turn.effect ⟨t, s⟩ hverbs).context
    constructor
    · rw [hcontext]
      rfl
    · rw [hcontext]
      exact Store.find?_setAll_eq _ _
  -- The others are evaluations, which write what verbs bind and nothing else.
  | call verb args => exact wrote_setAll (Context.call_snd hverbs verb args)
  | resolve v => exact wrote_setAll (Context.resolveValue_snd hverbs v)
  | action a => exact wrote_setAll (Context.template_snd hverbs [.call a.call])
  | read name => exact wrote_setAll (Context.template_snd hverbs [.var name])

/-- Operations write one after another. The induction is on the operations. -/
theorem wrote_performAll (ops : List Operation) (s : CaseRun)
    (hverbs : s.bench.context.verbs = Builtin.registry) :
    Wrote s (writesOf ops s) (performAll ops s) := by
  induction ops generalizing s with
  | nil => exact ⟨rfl, rfl⟩
  | cons op rest ih =>
    -- The verbs stay as they are, so the other operations write what is said of them too.
    have hop := wrote_perform op s hverbs
    have hrest := ih (op.perform s) (hop.verbs.trans hverbs)
    refine ⟨hrest.verbs.trans hop.verbs, ?_⟩
    rw [writesOf, Bindings.writeAll_append, ← hop.find?]
    exact hrest.find?

end Operation

/-! ## Reading the store -/

/-- All ways to read the variables of a context agree with a map. -/
structure Context.AgreesWith (c : Context) (m : Bindings) : Prop where
  get : ∀ name, c.store.get? name = (m name).map Binding.value
  contains : ∀ name, c.store.contains name = (m name).isSome
  isDeferred : ∀ name, c.store.isDeferred name = (m name).any Binding.deferred
  require : ∀ name, c.store.require name =
    match m name with
    | some b => .ok b.value
    | none => .error (.unresolvedVariable name)
  snapshot : ∀ name, c.store.snapshot.get? name = (m name).map Binding.value
  notNull : ∀ name, (c.call "VerifyNotNull" ⟨[.string name], []⟩).1 =
    match (m name).map Binding.value with
    | none | some .null => .error (.assertion s!"variable '{name}' is null or unbound")
    | some _ => .ok (.bool true)
  /-- What is deferred is bound. -/
  bound : ∀ name, c.store.isDeferred name = true → (m name).isSome = true

/-- A check that a variable is not null looks at the value that it is bound to. -/
theorem Context.call_verifyNotNull {c : Context} (hverbs : c.verbs = Builtin.registry)
    (name : String) :
    (c.call "VerifyNotNull" ⟨[.string name], []⟩).1 =
      match c.store.get? name with
      | none | some .null => .error (.assertion s!"variable '{name}' is null or unbound")
      | some _ => .ok (.bool true) := by
  have hverb : c.rules.verbs.get? "VerifyNotNull" =
      some ⟨.exact ["name"], .direct Builtin.verifyNotNull⟩ := by
    rw [Context.rules, hverbs]
    rfl
  have hcall : (c.call "VerifyNotNull" ⟨[.string name], []⟩).1 =
      (exec (Builtin.verifyNotNull ⟨[.string name], []⟩) c.store).1 := by
    rw [Context.call, Rules.invoke, hverb]
    rfl
  have htext : (Arguments.mk [.string name] []).text 0 = name := rfl
  rw [hcall, Builtin.verifyNotNull, exec_bind_of_ok (exec_get c.store), htext]
  cases c.store.get? name with
  | none => rfl
  | some v => cases v <;> rfl

/-- A context with the built-in verbs reads as the bindings of its store. -/
theorem Context.agreesWith_find? {c : Context} (hverbs : c.verbs = Builtin.registry) :
    c.AgreesWith c.store.find? where
  get name := (c.store.map_value_find? name).symm
  contains name := c.store.contains_eq name
  isDeferred name := c.store.isDeferred_eq name
  require name := by
    rw [Store.require, ← Store.map_value_find?]
    cases c.store.find? name <;> rfl
  snapshot name := (c.store.map_value_find? name).symm
  notNull name := by rw [Context.call_verifyNotNull hverbs, Store.map_value_find?]
  bound name hdeferred := by
    rw [← Store.contains_eq]
    exact c.store.bound name hdeferred

namespace Operation

/-- After any operations all ways to read the store agree with one map. -/
theorem agreesWith_writeAll (ops : List Operation) (s : CaseRun)
    (hverbs : s.bench.context.verbs = Builtin.registry) :
    (performAll ops s).bench.context.AgreesWith
      (Bindings.writeAll s.bench.context.store.find? (writesOf ops s)) := by
  have hwrote := wrote_performAll ops s hverbs
  rw [← hwrote.find?]
  exact Context.agreesWith_find? (hwrote.verbs.trans hverbs)

/-- After any operations all ways to read the store agree with one map, to which each operation
wrote what is said of it. A variable is deferred if and only if it was defined when it was last
written to, or it was deferred before and was not written to; and then it is bound. -/
theorem agreesWith_performAll (ops : List Operation) (s : CaseRun)
    (hverbs : s.bench.context.verbs = Builtin.registry) :
    (performAll ops s).bench.context.AgreesWith
        (Bindings.writeAll s.bench.context.store.find? (writesOf ops s)) ∧
      ∀ name, (performAll ops s).bench.context.store.isDeferred name = true ↔
        match (writesOf ops s).reverse.find? fun w => w.name = name with
        | some w => ∃ v, w = .deferred name v
        | none => s.bench.context.store.isDeferred name = true := by
  have hreads := agreesWith_writeAll ops s hverbs
  refine ⟨hreads, fun name => ?_⟩
  rw [hreads.isDeferred, Bindings.writeAll_apply]
  cases hlast : (writesOf ops s).reverse.find? fun w => w.name = name with
  | none => rw [Store.isDeferred_eq]
  | some w =>
    have hname : w.name = name := by simpa using List.find?_some hlast
    cases w with
    | concrete other v => simp [Write.binding?]
    | deferred other v =>
      cases hname
      simp [Write.binding?, Write.name]
    | removed other => simp [Write.binding?]

/-- A case with two deferred variables. -/
def tariff : Case :=
  { Case.blank "C1" "tariff" with
    globals := [("room", .string "$rate"), ("tax", .string "$rate")] }

/-- Operations on the variables of a case, one of which fails. -/
def rebooking : List Operation :=
  [ .bindGlobals tariff, .seed [("rate", .nat 7)],
    .action ⟨"SetVar(room, $tax)",
      ⟨"SetVar", [.literal none (.string "room") "room", .expr none [.var "tax"] "$tax"]⟩⟩,
    .resolve (.string "$price"), .step ⟨.request, .nat 80, some "page"⟩, .remove "rate" ]

/-- The room was bound by a verb and the page by a step, so only the tax is still deferred. -/
theorem agreesWith_performAll_rebooking :
    Case.visiting.bench.context.verbs = Builtin.registry ∧
      writesOf rebooking Case.visiting =
        [ .deferred "room" (.string "$rate"), .deferred "tax" (.string "$rate"),
          .concrete "rate" (.nat 7), .concrete "room" (.nat 7), .concrete "page" (.nat 80),
          .removed "rate" ] ∧
      let store := (performAll rebooking Case.visiting).bench.context.store
      store.isDeferred "tax" = true ∧ store.isDeferred "room" = false ∧
        store.get? "room" = some (.nat 7) ∧ store.isDeferred "page" = false ∧
        store.contains "rate" = false := by
  have hverbs : Case.visiting.bench.context.verbs = Builtin.registry := rfl
  have hwrites : writesOf rebooking Case.visiting =
      [ .deferred "room" (.string "$rate"), .deferred "tax" (.string "$rate"),
        .concrete "rate" (.nat 7), .concrete "room" (.nat 7), .concrete "page" (.nat 80),
        .removed "rate" ] := by cbv
  obtain ⟨reads, hdeferred⟩ := agreesWith_performAll rebooking Case.visiting hverbs
  rw [hwrites] at reads hdeferred
  exact ⟨hverbs, hwrites, (hdeferred "tax").mpr ⟨_, rfl⟩, (reads.isDeferred "room").trans rfl,
    (reads.get "room").trans rfl, (reads.isDeferred "page").trans rfl,
    (reads.contains "rate").trans rfl⟩

end Operation

/-! ## Whole cases -/

/-- What a step leaves depends on nothing but the step and what operations work on. -/
theorem Turn.stage_left_congr (t t' : Turn) (hstep : t.step = t'.step)
    (h : stage t.found = stage t'.found) (hverbs : t.context.verbs = Builtin.registry) :
    stage t.left = stage t'.left := by
  have hcontext : t.context = t'.context := congrArg Prod.fst h
  have hexecutors : t.executors = t'.executors := congrArg Prod.snd h
  have hfate : t.fate = t'.fate := by
    simp only [fate, hstep, hcontext, hexecutors]
  have hwrites : t.writes = t'.writes := by
    simp only [writes, fieldWrites, resultWrites, hfate, hstep, hcontext]
  have heffect := t.effect hverbs
  have heffect' := t'.effect (hcontext ▸ hverbs)
  refine Prod.ext ?_ ?_
  · show t.left.bench.context = t'.left.bench.context
    rw [heffect.context, heffect'.context, hcontext, hwrites, hfate]
  · show t.left.bench.executors = t'.left.bench.executors
    rw [heffect.executors, heffect'.executors, hfate, hexecutors, hstep]

namespace Operation

/-- What an operation leaves depends on nothing but what operations work on. -/
theorem stage_perform_congr (op : Operation) {s s' : CaseRun} (h : stage s = stage s')
    (hverbs : s.bench.context.verbs = Builtin.registry) :
    stage (op.perform s) = stage (op.perform s') := by
  have hcontext : s.bench.context = s'.bench.context := congrArg Prod.fst h
  have hexecutors : s.bench.executors = s'.bench.executors := congrArg Prod.snd h
  have honContext (f : Context → Context) :
      (f s.bench.context, s.bench.executors) = (f s'.bench.context, s'.bench.executors) := by
    rw [hcontext, hexecutors]
  cases op with
  | set name v => exact honContext fun c => { c with store := c.store.set name v }
  | define name v => exact honContext fun c => { c with store := c.store.define name v }
  | remove name => exact honContext fun c => { c with store := c.store.remove name }
  | seed values => exact honContext fun c => { c with store := c.store.setAll values }
  | bindGlobals c =>
    exact (stage_exec_bindGlobals c s).trans <|
      (honContext fun context => { context with
        store := c.patterns.foldl (fun store entry => store.setPattern entry.1 entry.2)
          (context.store.defineAll c.globals) }).trans (stage_exec_bindGlobals c s').symm
  | step t => exact (Turn.mk t s).stage_left_congr (Turn.mk t s') rfl h hverbs
  | call verb args => exact honContext fun c => (c.call verb args).2
  | resolve v => exact honContext fun c => (c.resolveValue v).2
  | action a => exact honContext fun c => (c.evaluateCall a.call).2
  | read name => exact honContext fun c => (c.readVariable name).2

theorem performAll_append (ops more : List Operation) (s : CaseRun) :
    performAll (ops ++ more) s = performAll more (performAll ops s) :=
  List.foldl_append

theorem stage_performAll_congr (ops : List Operation) {s s' : CaseRun} (h : stage s = stage s')
    (hverbs : s.bench.context.verbs = Builtin.registry) :
    stage (performAll ops s) = stage (performAll ops s') := by
  induction ops generalizing s s' with
  | nil => exact h
  | cons op rest ih =>
    exact ih (op.stage_perform_congr h hverbs) ((wrote_perform op s hverbs).verbs.trans hverbs)

/-- A computation performs some of these operations, in this order, and does nothing else to what
operations work on. -/
def PerformedBy {α : Type} (ops : List Operation) (m : Running α) : Prop :=
  ∀ s, s.bench.context.verbs = Builtin.registry →
    ∃ done, done.Sublist ops ∧ stage (exec m s).2 = stage (performAll done s)

section PerformedBy

variable {α β : Type} {ops more : List Operation} {m : Running α} {f : α → Running β}

theorem performedBy_nil (h : Moves (Same stage) m) : PerformedBy [] m :=
  fun s _ => ⟨[], List.Sublist.refl [], h s⟩

theorem PerformedBy.mono (hm : PerformedBy ops m) (h : ops.Sublist more) :
    PerformedBy more m := by
  intro s hverbs
  obtain ⟨done, hdone, hstage⟩ := hm s hverbs
  exact ⟨done, hdone.trans h, hstage⟩

theorem PerformedBy.bind (hm : PerformedBy ops m) (hf : ∀ a, PerformedBy more (f a)) :
    PerformedBy (ops ++ more) (m >>= f) := by
  intro s hverbs
  obtain ⟨done, hdone, hstage⟩ := hm s hverbs
  rw [exec_bind]
  rcases hexec : exec m s with ⟨e | a, s₁⟩ <;> rw [hexec] at hstage
  · exact ⟨done, hdone.trans (List.sublist_append_left ops more), hstage⟩
  · have hcontext : s₁.bench.context = (performAll done s).bench.context :=
      congrArg Prod.fst hstage
    have hverbs₁ : s₁.bench.context.verbs = Builtin.registry := by
      rw [hcontext, (wrote_performAll done s hverbs).verbs, hverbs]
    obtain ⟨later, hlater, hstage₁⟩ := hf a s₁ hverbs₁
    -- The later operations find what the earlier ones left, up to the result and the trace.
    refine ⟨done ++ later, hdone.append hlater, ?_⟩
    rw [hstage₁, performAll_append]
    exact stage_performAll_congr later hstage hverbs₁

theorem performedBy_trace (level : TraceLevel) (message : String) :
    PerformedBy [] (trace level message) :=
  performedBy_nil (moves_modify fun _ => rfl)

theorem performedBy_updateResult (f : CaseResult → CaseResult) :
    PerformedBy [] (updateResult f) :=
  performedBy_nil (moves_modify fun _ => rfl)

theorem performedBy_enter (p : Phase) (name : String) : PerformedBy [] (enter p name) :=
  (performedBy_updateResult _).bind fun _ => performedBy_trace _ _

/-- An operation of its own performs itself. -/
theorem performedBy_singleton (op : Operation) (h : ∀ s, (exec m s).2 = op.perform s) :
    PerformedBy [op] m :=
  fun s _ => ⟨[op], List.Sublist.refl _, congrArg stage (h s)⟩

theorem PerformedBy.outcome (hm : PerformedBy ops m) : PerformedBy ops m.outcome :=
  fun s hverbs => hm s hverbs

theorem performedBy_runActions (actions : List Action) :
    PerformedBy (actions.map action) (Case.runActions actions) := by
  induction actions with
  | nil => exact performedBy_nil (moves_pure _)
  | cons a rest ih =>
    exact (performedBy_singleton (action a) fun _ => rfl).bind fun _ =>
      (performedBy_trace _ _).bind fun _ => ih

theorem performedBy_runSteps (steps : List Step) :
    PerformedBy (steps.map step) (Case.runSteps steps) := by
  induction steps with
  | nil => exact performedBy_nil (moves_pure _)
  | cons t rest ih =>
    exact (performedBy_singleton (step t) fun _ => rfl).bind fun _ => ih

theorem performedBy_runVerify (actions : List Action) :
    PerformedBy (actions.map action) (Case.runVerify actions) := by
  induction actions with
  | nil => exact performedBy_nil (moves_pure _)
  | cons a rest ih =>
    have haction : PerformedBy [action a] (Case.runAction a) :=
      performedBy_singleton (action a) fun _ => rfl
    have hmore (o : VerifyOutcome) :
        PerformedBy (rest.map action) (Case.runVerify rest >>= fun os => pure (o :: os)) := by
      rw [← List.append_nil (rest.map action)]
      exact ih.bind fun _ => performedBy_nil (moves_pure _)
    refine haction.outcome.bind fun answer => ?_
    dsimp only
    split
    · exact (performedBy_trace _ _).bind fun _ => hmore _
    · exact (performedBy_trace _ _).bind fun _ => hmore _

end PerformedBy

end Operation

namespace Case

/-- What a case does before it is verified. -/
def fatalOperations (c : Case) : List Operation :=
  .bindGlobals c :: (c.preCommand.map .action ++ (c.steps.map .step ++ c.postCommand.map .action))

/-- What a case does to the store unless an error stops it. -/
def operations (c : Case) : List Operation :=
  c.fatalOperations ++ c.verify.map .action

open Operation

theorem performedBy_runFatalPhases (c : Case) :
    PerformedBy c.fatalOperations (runFatalPhases c) :=
  (performedBy_enter _ _).bind fun _ =>
    (performedBy_singleton (.bindGlobals c) fun _ => rfl).bind fun _ =>
      (performedBy_runActions c.preCommand).bind fun _ => (performedBy_enter _ _).bind fun _ =>
        (performedBy_runSteps c.steps).bind fun _ => (performedBy_enter _ _).bind fun _ =>
          performedBy_runActions c.postCommand

/-- A case performs its operations in order, those behind an error left out. -/
theorem performedBy_runPhases (c : Case) : PerformedBy c.operations (runPhases c) := by
  refine (performedBy_runFatalPhases c).outcome.bind fun result => ?_
  cases result with
  | ok _ =>
    rw [← List.append_nil (c.verify.map Operation.action)]
    exact (performedBy_enter _ _).bind fun _ => (performedBy_runVerify c.verify).bind fun _ =>
      performedBy_updateResult _
  | error e =>
    -- What is noted of the error does nothing to the store.
    exact PerformedBy.mono (performedBy_nil fun s => rfl) (List.nil_sublist _)

/-- Whatever a case does and wherever it stops, all ways to read the store that it leaves agree with
one map, to which those of its operations that were performed wrote. -/
theorem exists_agreesWith_run (c : Case) (module : String) (b : Bench)
    (hverbs : b.context.verbs = Builtin.registry) :
    ∃ done, done.Sublist c.operations ∧
      (c.run module b).2.context.AgreesWith
        (Bindings.writeAll b.context.store.find? (writesOf done (c.opened module b))) := by
  obtain ⟨done, hdone, hstage⟩ := performedBy_runPhases c (c.opened module b) hverbs
  have hreads := agreesWith_writeAll done (c.opened module b) hverbs
  have hcontext : (c.run module b).2.context =
      (performAll done (c.opened module b)).bench.context := congrArg Prod.fst hstage
  refine ⟨done, hdone, ?_⟩
  rw [hcontext]
  exact hreads

end Case

end Casebook
