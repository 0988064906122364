import Casebook.Proofs.Context.CallOrder
import Casebook.Proofs.Context.Limits
import Casebook.Proofs.Run.Independence

/-!
# Evaluations that only look

An evaluation changes the store only through the verbs that it runs, and it runs only those that the
texts it comes across call: the texts that it is given and those of the deferred values of the
context. So as long as these call none but verbs that only look at the store, an evaluation leaves
the store as it is, and as long as none of these verbs looks at the clock, it comes to the same at
all times (`looks_fresh`, `Context.readVariable_atTime`).
-/

namespace Casebook

open Computation

/-- The store at another time. -/
def Store.atTime (s : Store) (clock : ℕ) : Store :=
  { s with clock }

/-- The context at another time. -/
def Context.atTime (c : Context) (clock : ℕ) : Context :=
  { c with store := c.store.atTime clock }

/-! ## Verbs that only look -/

/-- From a store an action comes to the same at these times and leaves the store as it is. -/
def StoreAction.Looks (times : Set ℕ) (store : Store) {α : Type} (action : StoreAction α) : Prop :=
  ∃ result, ∀ clock ∈ times, exec action (store.atTime clock) = (result, store.atTime clock)

/-- A verb only looks at stores, and does the same at these times. -/
def Verb.Looks (times : Set ℕ) (verb : Verb) : Prop :=
  match verb.body with
  | .direct run => ∀ args store, StoreAction.Looks times store (run args)
  | .onVariable run => ∀ args found store, StoreAction.Looks times store (run args found)

/-- What a verb does at one time alone need not be compared. -/
theorem Verb.IsQuiet.looks {verb : Verb} (h : verb.IsQuiet) (clock : ℕ) : verb.Looks {clock} := by
  have haction {α : Type} {action : StoreAction α} (hmoves : Moves (Same id) action)
      (store : Store) : StoreAction.Looks {clock} store action :=
    ⟨_, fun _ htime => by rw [htime]; exact Prod.ext rfl (hmoves _)⟩
  unfold Verb.IsQuiet at h
  unfold Verb.Looks
  cases hbody : verb.body with
  | direct run =>
    rw [hbody] at h
    exact fun args => haction (h args)
  | onVariable run =>
    rw [hbody] at h
    exact fun args found => haction (h args found)

/-- All of a store but its clock. -/
def Store.untimed (s : Store) : Store :=
  s.atTime 0

/-- An action that leaves every store and does not look at the clock does the same at all times. -/
theorem StoreAction.looks_of_moves {α : Type} {action : StoreAction α}
    (hmoves : Moves (Same id) action) (hlooks : LooksAt Store.untimed action) (times : Set ℕ)
    (store : Store) : StoreAction.Looks times store action := by
  refine ⟨(exec action store).1, fun clock _ => Prod.ext ?_ (hmoves _)⟩
  exact (hlooks (store.atTime clock) store rfl).1

namespace Builtin

theorem untimed_throw {α : Type} (e : Error) :
    LooksAt Store.untimed (throw e : StoreAction α) :=
  fun _ _ h => ⟨rfl, h⟩

theorem untimed_verify (holds : Bool) (problem : String) :
    LooksAt Store.untimed (verify holds problem) := by
  unfold verify
  split
  · exact looksAt_pure _
  · exact untimed_throw _

theorem untimed_verifyVar (args : Arguments) (found : Except Error Value) :
    LooksAt Store.untimed (verifyVar args found) := by
  unfold verifyVar
  dsimp only
  split
  · exact untimed_verify _ _
  · exact untimed_throw _
  · exact untimed_throw _

theorem lastResult_of_untimed {s s' : Store} (h : s.untimed = s'.untimed) :
    s.lastResult = s'.lastResult :=
  (congrArg Store.lastResult h :)

theorem untimed_verifyCode (args : Arguments) : LooksAt Store.untimed (verifyCode args) := by
  refine looksAt_get_bind_of_congr (fun s s' h => by rw [lastResult_of_untimed h]) fun store => ?_
  split
  · exact untimed_throw _
  · split
    · exact untimed_throw _
    · exact untimed_verify _ _

theorem untimed_verifyContain (args : Arguments) :
    LooksAt Store.untimed (verifyContain args) := by
  refine looksAt_get_bind_of_congr (fun s s' h => by rw [lastResult_of_untimed h]) fun store => ?_
  split
  · exact untimed_throw _
  · exact untimed_verify _ _

theorem untimed_verifyNotNull (args : Arguments) :
    LooksAt Store.untimed (verifyNotNull args) := by
  have hget {s s' : Store} (h : s.untimed = s'.untimed) : s.get? = s'.get? :=
    (congrArg Store.get? h :)
  refine looksAt_get_bind_of_congr (fun s s' h => by rw [hget h]) fun store => ?_
  split
  · exact untimed_throw _
  · exact untimed_throw _
  · exact looksAt_pure _

theorem looks_of_mem_all (times : Set ℕ) :
    ∀ b ∈ all, b.name ∈ lookingNames → b.verb.Looks times := by
  have hdirect {run : Arguments → StoreAction Value} {s : Signature}
      (hmoves : ∀ args, Moves (Same id) (run args))
      (hlooks : ∀ args, LooksAt Store.untimed (run args)) : (Verb.mk s (.direct run)).Looks times :=
    fun args => StoreAction.looks_of_moves (hmoves args) (hlooks args) times
  have hother {P : Prop} {name : String} (h : name ∉ lookingNames) : name ∈ lookingNames → P :=
    fun hname => absurd hname h
  simp only [all, List.forall_mem_cons]
  exact ⟨hother (by decide), hother (by decide),
    fun _ _ found _ => ⟨found, fun _ _ => rfl⟩,
    hother (by decide), hother (by decide), hother (by decide),
    fun _ args found => StoreAction.looks_of_moves (moves_verifyVar args found)
      (untimed_verifyVar args found) times,
    fun _ => hdirect moves_verifyEqual fun _ => untimed_verify _ _,
    fun _ => hdirect moves_verifyCode untimed_verifyCode,
    fun _ => hdirect moves_verifyContain untimed_verifyContain,
    fun _ => hdirect moves_verifyNotNull untimed_verifyNotNull,
    List.forall_mem_nil _⟩

/-- The built-in verbs that bind variables. -/
def bindingNames : List String :=
  ["Set", "SetVar", "DyStrData", "DyJsonData"]

/-- The built-in verbs that bind no variables leave every store as it is. -/
theorem isQuiet_of_notMem_bindingNames :
    ∀ b ∈ all, b.name ∉ bindingNames → b.verb.IsQuiet := by
  have hother {P : Prop} {name : String} (h : name ∈ bindingNames) : name ∉ bindingNames → P :=
    fun hname => absurd h hname
  simp only [all, List.forall_mem_cons]
  exact ⟨hother (by decide), hother (by decide), fun _ => moves_getVar, hother (by decide),
    hother (by decide), fun _ _ => moves_bind moves_get fun _ => moves_pure _,
    fun _ => moves_verifyVar, fun _ => moves_verifyEqual, fun _ => moves_verifyCode,
    fun _ => moves_verifyContain, fun _ => moves_verifyNotNull, List.forall_mem_nil _⟩

/-- Built-in verbs that bind no variables do the same at one time. -/
theorem looks_registry (clock : ℕ) : ∀ name verb, registry.get? name = some verb →
    name ∉ bindingNames → verb.Looks {clock} :=
  forall_registry fun b hb hname => (isQuiet_of_notMem_bindingNames b hb hname).looks clock

/-- Those of them that do not give the time do the same at all times. -/
theorem looks_registry_of_untimed (times : Set ℕ) : ∀ name verb, registry.get? name = some verb →
    name ∉ "GetTimestamp" :: bindingNames → verb.Looks times := by
  have hlooking : ∀ b ∈ all, b.name ∉ "GetTimestamp" :: bindingNames → b.name ∈ lookingNames := by
    decide
  exact forall_registry fun b hb hname => looks_of_mem_all times b hb (hlooking b hb hname)

end Builtin

/-! ## Evaluations that only look -/

section Looks

variable {times : Set ℕ} {c : Context} {α β : Type}

/-- From a context an evaluation comes to the same at these times and leaves the store as it is. -/
def Looks (times : Set ℕ) (c : Context) {α : Type} (m : Evaluation α) : Prop :=
  ∃ result, ∀ clock ∈ times, Gives (c.atTime clock).store m result

theorem looks_lift (result : Except Error α) : Looks times c (Evaluation.lift result) :=
  ⟨result, fun _ _ => gives_lift result⟩

theorem looks_pure (a : α) : Looks times c (pure a : Evaluation α) :=
  looks_lift (.ok a)

theorem looks_throw (e : Error) : Looks times c (throw e : Evaluation α) :=
  looks_lift (.error e)

theorem looks_note (e : Event) : Looks times c (Evaluation.note e) :=
  ⟨.ok (), fun _ _ => gives_note e⟩

theorem Looks.bind {m : Evaluation α} {f : α → Evaluation β} (hm : Looks times c m)
    (hf : ∀ a, Looks times c (f a)) : Looks times c (m >>= f) := by
  obtain ⟨result, hresult⟩ := hm
  cases result with
  | error e =>
    exact ⟨.error e, fun clock htime =>
      gives_bind (g := fun _ => .error e) (hresult clock htime) nofun⟩
  | ok a =>
    obtain ⟨next, hnext⟩ := hf a
    exact ⟨next, fun clock htime => gives_bind_ok (hresult clock htime) (hnext clock htime)⟩

theorem Looks.outcome {m : Evaluation α} (hm : Looks times c m) : Looks times c m.outcome := by
  obtain ⟨result, hresult⟩ := hm
  exact ⟨.ok result, fun clock htime => gives_outcome (hresult clock htime)⟩

theorem looks_onStore {action : StoreAction α} (h : StoreAction.Looks times c.store action) :
    Looks times c (Evaluation.onStore action) := by
  obtain ⟨result, hresult⟩ := h
  exact ⟨result, fun clock htime => gives_onStore (hresult clock htime)⟩

theorem isSequential_looks :
    Value.IsSequential fun α (m m' : Evaluation α) => m = m' ∧ Looks times c m :=
  ⟨fun a => ⟨rfl, looks_pure a⟩, fun hm hf =>
    ⟨hm.1 ▸ congrArg _ (funext fun a => (hf a).1), hm.2.bind fun a => (hf a).2⟩⟩

end Looks

/-! ## Texts and their calls -/

/-- The calls of pieces are of verbs of some names. -/
def Segment.CallsOnly (names : Set String) (segments : List Segment) : Prop :=
  ∀ call ∈ callsOfSegments segments, call.name ∈ names

/-- The calls of a text are of verbs of some names, if the text is a template. -/
def Template.CallsOnly (limit : ℕ) (names : Set String) (text : String) : Prop :=
  ∀ t, parse limit text = .ok t → Segment.CallsOnly names t.segments

/-- The calls in the deferred values of a context are of verbs of some names. -/
def Context.CallsOnly (c : Context) (names : Set String) : Prop :=
  ∀ name text, c.Has name text → Template.CallsOnly c.limit names text

/-- No call in a deferred value of a context is of a verb of these names. -/
def Context.CallsNone (c : Context) (names : List String) : Prop :=
  c.CallsOnly {name | name ∉ names}

namespace Segment

theorem callsOnly_cons {names : Set String} {s : Segment} {rest : List Segment} :
    CallsOnly names (s :: rest) ↔ CallsOnly names [s] ∧ CallsOnly names rest := by
  simp only [CallsOnly, callsOfSegments, List.append_nil, List.forall_mem_append]

theorem callsOnly_var (names : Set String) (name : String) : CallsOnly names [.var name] := by
  intro call hcall
  rw [callsOfSegments, calls, callsOfSegments] at hcall
  cases hcall

theorem callsOnly_call {names : Set String} {call : Call}
    (h : CallsOnly names [.call call]) :
    call.name ∈ names ∧ ∀ inner ∈ callsOfArgs call.args, inner.name ∈ names := by
  rw [CallsOnly, callsOfSegments, callsOfSegments, List.append_nil, calls_call,
    List.forall_mem_append] at h
  exact ⟨h.2 call (List.mem_singleton_self call), h.1⟩

/-- A template without calls has none in their arguments either. -/
theorem callsOfSegments_of_hasCall {segments : List Segment}
    (h : segments.any isCall = false) : callsOfSegments segments = [] := by
  induction segments with
  | nil => rfl
  | cons s rest ih =>
    rw [List.any_cons, Bool.or_eq_false_iff] at h
    rw [callsOfSegments, ih h.2, List.append_nil]
    cases s with
    | text s => rfl
    | var name => rfl
    | call call => cases h.1

end Segment

/-- Where no deferred value holds a call, no verb is called. -/
theorem Context.IsCallFree.callsOnly {c : Context} (h : c.IsCallFree) : c.CallsOnly ∅ := by
  intro name text hhas t ht call hcall
  rw [Segment.callsOfSegments_of_hasCall (h name text t hhas ht)] at hcall
  cases hcall

/-! ## Levels that only look -/

section Levels

variable {times : Set ℕ} {c : Context} {names : Set String}
  {reading : String → Evaluation Value} {depth : ℕ} {below : Option (Unit → Level)}
  {expanding : List String}

/-- A level only looks, as long as it is given nothing that calls other verbs. -/
structure Level.Looks (times : Set ℕ) (c : Context) (names : Set String) (level : Level) :
    Prop where
  template : ∀ expanding segments, Segment.CallsOnly names segments →
    Casebook.Looks times c (level.template expanding segments)
  value : ∀ expanding v, (∀ text ∈ v.texts, Template.CallsOnly c.limit names text) →
    Casebook.Looks times c (level.value expanding v)

theorem looks_descend {α : Type} {work : Level → Evaluation α}
    (hwork : ∀ level, below = some level → Looks times c (work (level ()))) :
    Looks times c (Level.descend c.rules depth below expanding work) := by
  cases below with
  | none => exact looks_throw _
  | some level =>
    obtain ⟨result, hresult⟩ := hwork level rfl
    exact ⟨result, fun clock htime => gives_descend (hresult clock htime)⟩

/-- A deferred value is evaluated a level below, and its texts are those of the context. -/
theorem looks_variableOver (hcalls : c.CallsOnly names)
    (hbelow : ∀ level, below = some level → (level ()).Looks times c names) (name : String) :
    Looks times c (Level.variableOver c.rules depth below expanding name) := by
  have hdeeper (v : Value) (hfind : c.store.find? name = some ⟨v, true⟩) :
      Looks times c (Level.descend c.rules depth below (expanding ++ [name]) fun level =>
        level.value (expanding ++ [name]) v) :=
    looks_descend fun level hlevel =>
      (hbelow level hlevel).value _ v fun text htext => hcalls name text ⟨v, hfind, htext⟩
  obtain ⟨result, hresult⟩ : ∃ result : Except Error Value, ∀ v,
      c.store.find? name = some ⟨v, true⟩ → ∀ clock ∈ times,
        Gives (c.atTime clock).store (Level.descend c.rules depth below (expanding ++ [name])
          fun level => level.value (expanding ++ [name]) v) result := by
    by_cases hdeferred : ∃ v, c.store.find? name = some ⟨v, true⟩
    · obtain ⟨v, hfind⟩ := hdeferred
      obtain ⟨result, hresult⟩ := hdeeper v hfind
      refine ⟨result, fun v' hfind' => ?_⟩
      cases hfind.symm.trans hfind'
      exact hresult
    · exact ⟨.ok .null, fun v hfind => absurd ⟨v, hfind⟩ hdeferred⟩
  have hgives (clock : ℕ) (htime : clock ∈ times) : Gives (c.atTime clock).store
      (Level.variableOver (c.atTime clock).rules depth below expanding name)
      ((c.atTime clock).readingOver (fun _ _ => result) expanding name) :=
    Context.gives_variableOver fun v hfind => hresult v hfind clock htime
  exact ⟨c.readingOver (fun _ _ => result) expanding name, hgives⟩

theorem looks_argumentsAt {level : Level}
    (htemplate : ∀ segments, Segment.CallsOnly names segments →
      Looks times c (level.template expanding segments))
    (args : List Argument) (done : Arguments)
    (hargs : ∀ inner ∈ Segment.callsOfArgs args, inner.name ∈ names) :
    Looks times c (Level.argumentsAt level expanding args done) := by
  induction args generalizing done with
  | nil => exact looks_pure done
  | cons a rest ih =>
    rw [Segment.callsOfArgs, List.forall_mem_append] at hargs
    have hrest (v : Value) :
        Looks times c (Level.argumentsAt level expanding rest (done.add a.key v)) := ih _ hargs.2
    cases a with
    | literal key v raw => exact (looks_pure v).bind hrest
    | quoted key q body raw =>
      exact (htemplate body hargs.1).bind fun v => (looks_pure (Value.string v.render)).bind hrest
    | expr key body raw => exact (htemplate body hargs.1).bind hrest

section Invoke

variable (hreading : ∀ name, Looks times c (reading name))
  (hverbs : ∀ name ∈ names, ∀ verb, c.verbs.get? name = some verb → verb.Looks times)

include hreading hverbs

theorem looks_invoke {name : String} (hname : name ∈ names) (args : Arguments) :
    Looks times c (c.rules.invoke reading name args) := by
  unfold Rules.invoke
  split
  · exact looks_throw _
  · next verb hverb =>
    have hlooks := hverbs name hname verb hverb
    refine (looks_lift _).bind fun bound => (looks_note _).bind fun _ => ?_
    unfold Verb.Looks at hlooks
    split
    · next run hbody =>
      rw [hbody] at hlooks
      exact looks_onStore (hlooks bound c.store)
    · next run hbody =>
      rw [hbody] at hlooks
      exact (hreading _).outcome.bind fun found => looks_onStore (hlooks bound found c.store)

theorem looks_callOver (hbelow : ∀ level, below = some level → (level ()).Looks times c names)
    {call : Call} (hcall : Segment.CallsOnly names [.call call]) :
    Looks times c (Level.callOver c.rules reading depth below expanding call) := by
  obtain ⟨hname, hargs⟩ := Segment.callsOnly_call hcall
  unfold Level.callOver
  split
  · exact looks_throw _
  · refine looks_descend fun level hlevel => ?_
    exact (looks_argumentsAt ((hbelow level hlevel).template expanding) _ _ hargs).bind fun args =>
      looks_invoke hreading hverbs hname args

end Invoke

section Texts

variable (hvar : ∀ name, Looks times c (Level.variableOver c.rules depth below expanding name))
  (hcall : ∀ call, Segment.CallsOnly names [.call call] →
    Looks times c (Level.callOver c.rules reading depth below expanding call))

include hvar hcall

theorem looks_segmentOver {s : Segment} (hs : Segment.CallsOnly names [s]) :
    Looks times c (Level.segmentOver c.rules reading depth below expanding s) := by
  cases s with
  | text s => exact looks_pure _
  | var name => exact hvar name
  | call call => exact hcall call hs

theorem looks_textOver {segments : List Segment} (h : Segment.CallsOnly names segments) :
    Looks times c (Level.textOver c.rules reading depth below expanding segments) := by
  induction segments with
  | nil => exact looks_pure _
  | cons s rest ih =>
    obtain ⟨hs, hrest⟩ := Segment.callsOnly_cons.mp h
    exact (looks_segmentOver hvar hcall hs).bind fun _ => (ih hrest).bind fun _ => looks_pure _

theorem looks_templateOver {segments : List Segment} (h : Segment.CallsOnly names segments) :
    Looks times c (Level.templateOver c.rules reading depth below expanding segments) := by
  unfold Level.templateOver
  cases hsole : (Template.mk segments).solePlaceholder? with
  | none => exact (looks_textOver hvar hcall h).bind fun _ => looks_pure _
  | some s =>
    have hsegments : segments = [s] := Template.segments_of_solePlaceholder? hsole
    rw [hsegments] at h
    exact looks_segmentOver hvar hcall h

theorem looks_stringOver {text : String} (h : Template.CallsOnly c.limit names text) :
    Looks times c (Level.stringOver c.rules reading depth below expanding text) := by
  unfold Level.stringOver
  split
  · cases hparse : Template.parse c.rules.limit text with
    | error e => exact looks_throw e
    | ok t => exact looks_templateOver hvar hcall (h t hparse)
  · exact looks_pure _

theorem looks_valueOver {v : Value} (h : ∀ text ∈ v.texts, Template.CallsOnly c.limit names text) :
    Looks times c (Level.valueOver c.rules reading depth below expanding v) := by
  -- The property is of evaluations alone, so the value is set beside itself.
  have hvalue := Value.rel_mapTexts (isSequential_looks (c := c)) v
    (fun text htext => ⟨rfl, looks_stringOver hvar hcall (h text htext)⟩) fun key hkey =>
      ⟨rfl, (looks_stringOver hvar hcall (h key hkey)).bind fun v => looks_pure v.render⟩
  exact hvalue.2

end Texts

variable (hcalls : c.CallsOnly names)
  (hverbs : ∀ name ∈ names, ∀ verb, c.verbs.get? name = some verb → verb.Looks times)

include hcalls hverbs

theorem looks_above (hreading : ∀ name, Looks times c (reading name))
    (hbelow : ∀ level, below = some level → (level ()).Looks times c names) :
    (Level.above c.rules reading depth below).Looks times c names where
  template _ _ := looks_templateOver (looks_variableOver hcalls hbelow) fun _ =>
    looks_callOver hreading hverbs hbelow
  value _ _ := looks_valueOver (looks_variableOver hcalls hbelow) fun _ =>
    looks_callOver hreading hverbs hbelow

/-- The induction is on the number of levels that may yet be opened. -/
theorem looks_tower (hreading : ∀ name, Looks times c (reading name)) (room depth : ℕ) :
    (Level.tower c.rules reading room depth).Looks times c names := by
  induction room generalizing depth with
  | zero => exact looks_above hcalls hverbs hreading nofun
  | succ room ih =>
    refine looks_above hcalls hverbs hreading fun level hlevel => ?_
    cases hlevel
    exact ih (depth + 1)

/-- Where the calls in deferred values are of verbs that only look, reading a variable only looks.
The induction is on the number of fresh readings that may be stacked. -/
theorem looks_fresh (n : ℕ) (name : String) : Looks times c (c.rules.fresh n name) := by
  have hplain := Segment.callsOnly_var names name
  induction n generalizing name with
  | zero =>
    have habove : (Level.above c.rules (fun other => throw (.unresolvedVariable other)) 0
        none).Looks times c names := looks_above hcalls hverbs (fun _ => looks_throw _) nofun
    exact habove.template _ _ hplain
  | succ n ih =>
    have hreading (other : String) := ih other (Segment.callsOnly_var names other)
    exact (looks_tower hcalls hverbs hreading c.limit 0).template _ _ hplain

end Levels

namespace Context

/-- Where the calls in deferred values are of verbs that only look, reading a variable comes to the
same at all these times and leaves the context as it is. -/
theorem exists_readVariable {times : Set ℕ} {c : Context} {names : Set String}
    (hcalls : c.CallsOnly names)
    (hverbs : ∀ name ∈ names, ∀ verb, c.verbs.get? name = some verb → verb.Looks times)
    (name : String) :
    ∃ result, ∀ clock ∈ times, (c.atTime clock).readVariable name = (result, c.atTime clock) := by
  have hreading (other : String) : Looks times c (c.rules.fresh c.readings other) :=
    looks_fresh hcalls hverbs c.readings other
  obtain ⟨result, hresult⟩ :=
    (looks_tower hcalls hverbs hreading c.limit 0).template [] [.var name]
      (Segment.callsOnly_var names name)
  refine ⟨result, fun clock htime => ?_⟩
  obtain ⟨hvalue, hstore⟩ := hresult clock htime ⟨(c.atTime clock).store, []⟩ rfl
  exact Prod.ext hvalue (congrArg (fun store => { c with store }) hstore)

section Builtins

variable {c : Context} (hverbs : c.verbs = Builtin.registry)

include hverbs

/-- Where no built-in verb that binds variables is called, reading a variable changes nothing. -/
theorem readVariable_snd_of_callsNone (hcalls : c.CallsNone Builtin.bindingNames)
    (name : String) : (c.readVariable name).2 = c := by
  obtain ⟨result, hresult⟩ := exists_readVariable hcalls
    (fun name hname verb hverb =>
      Builtin.looks_registry c.store.clock name verb (hverbs ▸ hverb) hname) name
  exact congrArg Prod.snd (hresult c.store.clock rfl)

/-- Where none that gives the time is called either, it does not matter when a variable is read. -/
theorem readVariable_atTime (hcalls : c.CallsNone ("GetTimestamp" :: Builtin.bindingNames))
    (clock : ℕ) (name : String) :
    (c.atTime clock).readVariable name = ((c.readVariable name).1, c.atTime clock) := by
  obtain ⟨result, hresult⟩ := exists_readVariable hcalls
    (fun name hname verb hverb =>
      Builtin.looks_registry_of_untimed Set.univ name verb (hverbs ▸ hverb) hname) name
  have hnow : c.readVariable name = (result, c) := hresult c.store.clock trivial
  rw [hresult clock trivial, hnow]

end Builtins

end Context

end Casebook
