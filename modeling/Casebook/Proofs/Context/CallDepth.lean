import Casebook.Proofs.Composition.ReadingErrors
import Casebook.Proofs.Context.Limits
import Casebook.Proofs.Template.CallDepth
import Mathlib

/-!
# The depth of calls and the limit

Where no variable is deferred, only calls open levels, so how deep calls are nested decides whether
an evaluation exceeds the limit, whatever the verbs do, as long as they resolve nothing themselves:
`FitsIn room n m` says of an evaluation in which calls are nested `n` deep that it succeeds only if
there is room for so many levels, and does not exceed the limit if there is. `LimitedTo limit m m'`
sets it beside the same one under a higher limit, which it follows until it exceeds its own.

The parser applies the same limit to the braces of an action. Braces and calls agree except in an
action in its bare form, whose outermost call opens a level and has no braces, so the two limits
agree up to one level (`Action.limits_agree_up_to_one`).
-/

namespace Casebook

open Computation

/-! ## Verbs that resolve nothing -/

/-- An error is about something else than the limit. -/
def Error.isWithinLimit : Error → Bool
  | .recursionLimit _ => false
  | _ => true

/-- In a store without deferred variables a verb defines none, and it resolves nothing itself that
might exceed the limit. -/
def Verb.IsFlat (verb : Verb) : Prop :=
  ∀ args store, store.IsConcrete → (verb.answer args store).2.IsConcrete ∧
    FailsOnly Error.isWithinLimit (verb.answer args store).1

/-- No verb defines a deferred variable or exceeds the limit by itself. -/
def Registry.IsFlat (verbs : Registry) : Prop :=
  ∀ name verb, verbs.get? name = some verb → verb.IsFlat

/-- Arguments that do not fit a signature are no matter of the limit. -/
theorem Signature.failsOnly_bind (s : Signature) (function : String) (args : Arguments) :
    FailsOnly Error.isWithinLimit (s.bind function args) := by
  have hplace (slots : Slots) (a : String × Value) :
      FailsOnly Error.isWithinLimit (s.place function slots a) := by
    unfold place
    split <;> split <;> first | exact failsOnly_ok _ | exact failsOnly_error rfl
  have hleading (values : List (Option Value)) :
      FailsOnly Error.isWithinLimit (s.leading function values) := by
    unfold leading
    split
    · exact failsOnly_error rfl
    · exact failsOnly_ok _
  unfold bind
  refine failsOnly_check rfl ?_
  refine (failsOnly_foldlM hplace _ _).bind fun slots => (hleading _).bind fun positional => ?_
  exact failsOnly_check rfl (failsOnly_ok _)

theorem Store.failsOnly_require (store : Store) (name : String) :
    FailsOnly Error.isWithinLimit (store.require name) := by
  unfold require
  split
  · exact failsOnly_ok _
  · exact failsOnly_error rfl

/-! ### Built-in verbs -/

/-- Work on a store without deferred variables that defines none and is no matter of the limit. -/
abbrev StoreAction.IsFlat {α : Type} (action : StoreAction α) : Prop :=
  Keeps Store.IsConcrete (fun _ => True) (fun e => e.isWithinLimit = true) action

namespace StoreAction

variable {α β : Type} {action : StoreAction α} {f : α → StoreAction β}

theorem isFlat_pure (a : α) : IsFlat (pure a) :=
  keeps_pure trivial

theorem isFlat_throw {e : Error} (he : e.isWithinLimit = true) :
    IsFlat (throw e : StoreAction α) :=
  keeps_throw he

theorem isFlat_lift {result : Except Error α} (h : FailsOnly Error.isWithinLimit result) :
    IsFlat (ExceptT.mk (pure result)) :=
  fun _ hs => ⟨hs, fun _ _ => trivial, h⟩

theorem IsFlat.bind (h : IsFlat action) (hf : ∀ a, IsFlat (f a)) : IsFlat (action >>= f) :=
  Keeps.bind h fun a _ => hf a

theorem isFlat_get : IsFlat (get : StoreAction Store) :=
  fun _ hs => ⟨hs, fun _ _ => trivial, nofun⟩

theorem isFlat_set (name : String) (v : Value) :
    IsFlat (modify fun s : Store => s.set name v : StoreAction PUnit) :=
  keeps_modify fun _ hs => hs.set name v

end StoreAction

namespace Builtin

open StoreAction

theorem isFlat_bindTo (name : String) (v : Value) : StoreAction.IsFlat (bindTo name v) :=
  (isFlat_set name v).bind fun _ => isFlat_pure v

theorem isFlat_verify (holds : Bool) (problem : String) :
    StoreAction.IsFlat (verify holds problem) := by
  unfold verify
  split
  · exact isFlat_pure _
  · exact isFlat_throw rfl

theorem isFlat_set (args : Arguments) : StoreAction.IsFlat (set args) := by
  have hsetAll {s : Store} (hs : s.IsConcrete) : (s.setAll args.named).IsConcrete := by
    unfold Store.setAll
    induction args.named generalizing s with
    | nil => exact hs
    | cons entry rest ih => exact ih (hs.set entry.1 entry.2)
  exact StoreAction.IsFlat.bind (keeps_modify fun _ hs => hsetAll hs) fun _ => isFlat_pure _

theorem isFlat_setVar (args : Arguments) : StoreAction.IsFlat (setVar args) := by
  unfold setVar
  split
  · exact isFlat_throw rfl
  · exact isFlat_bindTo _ _

theorem isFlat_resultFor (function : String) : StoreAction.IsFlat (resultFor function) := by
  refine isFlat_get.bind fun store => ?_
  split
  · exact isFlat_pure _
  · exact isFlat_throw rfl

theorem failsOnly_groupIndex (v : Option Value) :
    FailsOnly Error.isWithinLimit (groupIndex v) := by
  unfold groupIndex
  split
  · exact failsOnly_ok _
  · split
    · split
      · exact failsOnly_error rfl
      · exact failsOnly_ok _
    · exact failsOnly_error rfl

theorem isFlat_dyStrData (args : Arguments) : StoreAction.IsFlat (dyStrData args) := by
  refine (isFlat_lift (failsOnly_groupIndex _)).bind fun index => isFlat_get.bind fun store => ?_
  split
  · exact isFlat_throw rfl
  · refine (isFlat_resultFor _).bind fun result => ?_
    split
    · exact isFlat_bindTo _ _
    · exact isFlat_throw rfl

theorem isFlat_dyJsonData (args : Arguments) : StoreAction.IsFlat (dyJsonData args) := by
  refine (isFlat_resultFor _).bind fun result => ?_
  split
  · exact isFlat_bindTo _ _
  · exact isFlat_throw rfl

theorem isFlat_getTimestamp (args : Arguments) : StoreAction.IsFlat (getTimestamp args) :=
  isFlat_get.bind fun _ => isFlat_pure _

theorem isFlat_verifyVar (args : Arguments) {found : Except Error Value}
    (h : FailsOnly Error.isWithinLimit found) : StoreAction.IsFlat (verifyVar args found) := by
  unfold verifyVar
  dsimp only
  split
  · exact isFlat_verify _ _
  · exact isFlat_throw rfl
  · next e _ => exact isFlat_throw (h e rfl)

theorem isFlat_verifyCode (args : Arguments) : StoreAction.IsFlat (verifyCode args) := by
  refine isFlat_get.bind fun store => ?_
  split
  · exact isFlat_throw rfl
  · split
    · exact isFlat_throw rfl
    · exact isFlat_verify _ _

theorem isFlat_verifyContain (args : Arguments) : StoreAction.IsFlat (verifyContain args) := by
  refine isFlat_get.bind fun store => ?_
  split
  · exact isFlat_throw rfl
  · exact isFlat_verify _ _

theorem isFlat_verifyNotNull (args : Arguments) : StoreAction.IsFlat (verifyNotNull args) := by
  refine isFlat_get.bind fun store => ?_
  split
  · exact isFlat_throw rfl
  · exact isFlat_throw rfl
  · exact isFlat_pure _

/-- A verb that works on the store directly is flat if its work is. -/
theorem isFlat_direct (signature : Signature) {run : Arguments → StoreAction Value}
    (hrun : ∀ args, StoreAction.IsFlat (run args)) : Verb.IsFlat ⟨signature, .direct run⟩ :=
  fun args store hstore => ⟨(hrun args store hstore).1, (hrun args store hstore).2.2⟩

/-- What a verb reads in a store without deferred variables is bound there, or unbound. -/
theorem isFlat_onVariable (signature : Signature)
    {run : Arguments → Except Error Value → StoreAction Value}
    (hrun : ∀ args found, FailsOnly Error.isWithinLimit found →
      StoreAction.IsFlat (run args found)) : Verb.IsFlat ⟨signature, .onVariable run⟩ := by
  intro args store hstore
  have hflat := hrun args _ (store.failsOnly_require (args.text 0)) store hstore
  exact ⟨hflat.1, hflat.2.2⟩

theorem isFlat_of_mem_all : ∀ b ∈ all, b.verb.IsFlat := by
  simp only [all, List.forall_mem_cons]
  exact ⟨isFlat_direct _ isFlat_set, isFlat_direct _ isFlat_setVar,
    isFlat_onVariable _ fun _ _ h => isFlat_lift h, isFlat_direct _ isFlat_dyStrData,
    isFlat_direct _ isFlat_dyJsonData, isFlat_direct _ isFlat_getTimestamp,
    isFlat_onVariable _ fun args _ h => isFlat_verifyVar args h,
    isFlat_direct _ fun _ => isFlat_verify _ _, isFlat_direct _ isFlat_verifyCode,
    isFlat_direct _ isFlat_verifyContain, isFlat_direct _ isFlat_verifyNotNull,
    List.forall_mem_nil _⟩

theorem isFlat_registry : registry.IsFlat :=
  forall_registry isFlat_of_mem_all

end Builtin

/-! ## Runs of verbs -/

/-- In a store without deferred variables the limit makes no difference to the run of a verb. -/
theorem exists_exec_invoke {verbs : Registry} (hverbs : verbs.IsFlat) (name : String)
    (args : Arguments) {s : Session} (hs : s.store.IsConcrete) :
    ∃ result s', s'.store.IsConcrete ∧ FailsOnly Error.isWithinLimit result ∧
      ∀ limit readings, exec (Rules.invoke ⟨verbs, limit⟩ (Rules.fresh ⟨verbs, limit⟩ readings)
        name args) s = (result, s') := by
  cases hverb : verbs.get? name with
  | none =>
    exact ⟨.error (.unknownFunction name), s, hs, failsOnly_error rfl, fun limit readings =>
      exec_invoke_of_unknown hverb s⟩
  | some verb =>
    cases hbind : verb.signature.bind name args with
    | error e =>
      exact ⟨.error e, s, hs, failsOnly_error (verb.signature.failsOnly_bind name args e hbind),
        fun limit readings => exec_invoke_of_refused hverb hbind s⟩
    | ok bound =>
      obtain ⟨hconcrete, hanswer⟩ := hverbs name verb hverb bound s.store hs
      exact ⟨_, ⟨_, _⟩, hconcrete, hanswer, fun limit readings =>
        exec_invoke_of_bind_ok readings hverb hbind hs⟩

/-! ## Evaluations that fit -/

section Fitting

variable {α β : Type} {room n n' : ℕ}

/-- From a store without deferred variables an evaluation in which calls are nested so deep succeeds
only if there is room for them, and does not exceed the limit if there is; it defines no deferred
variable. -/
def FitsIn (room n : ℕ) (m : Evaluation α) : Prop :=
  Keeps (fun s : Session => s.store.IsConcrete) (fun _ => n ≤ room)
    (fun e => n ≤ room → e.isWithinLimit = true) m

theorem fitsIn_ok (a : α) : FitsIn room 0 (Evaluation.lift (.ok a)) :=
  keeps_pure (Nat.zero_le room)

theorem fitsIn_error {e : Error} (he : e.isWithinLimit = true) :
    FitsIn room n (Evaluation.lift (.error e) : Evaluation α) :=
  keeps_throw fun _ => he

theorem FitsIn.bind {m : Evaluation α} {f : α → Evaluation β} (hm : FitsIn room n m)
    (hf : ∀ a, FitsIn room n' (f a)) : FitsIn room (max n n') (m >>= f) := by
  refine Keeps.bind (hm.mono (fun _ hn => hn) fun e he hmax => he (Nat.max_le.mp hmax).1)
    fun a hn => ?_
  exact (hf a).mono (fun _ hn' => Nat.max_le.mpr ⟨hn, hn'⟩) fun e he hmax =>
    he (Nat.max_le.mp hmax).2

theorem FitsIn.map {m : Evaluation α} (hm : FitsIn room n m) (f : α → β) :
    FitsIn room n (m >>= fun a => return f a) := by
  have hmap := hm.bind fun a => fitsIn_ok (f a)
  rwa [Nat.max_zero] at hmap

/-! ### Levels -/

variable {rules : Rules} {readings depth : ℕ} {below : Option (Unit → Level)}
  {expanding : List String}

/-- Whatever template is evaluated at a level, it fits if there is room for its calls. -/
def Level.Within (room : ℕ) (level : Level) : Prop :=
  ∀ expanding segments,
    FitsIn room (Segment.callDepthOfSegments segments) (level.template expanding segments)

/-- There is a level below if there is room for one, and one less there. -/
inductive BelowWithin : ℕ → Option (Unit → Level) → Prop where
  | none : BelowWithin 0 none
  | some {room : ℕ} {level : Unit → Level} (within : (level ()).Within room) :
      BelowWithin (room + 1) (some level)

theorem fitsIn_descend {level : Unit → Level} {work : Level → Evaluation α}
    (hwork : FitsIn room n (work (level ()))) :
    FitsIn (room + 1) (n + 1) (Level.descend rules depth (some level) expanding work) := by
  intro s hs
  rw [exec_descend]
  obtain ⟨hconcrete, hvalue, herror⟩ :=
    hwork { s with journal := .opened (depth + 1) expanding :: s.journal } hs
  exact ⟨hconcrete, fun a ha => Nat.succ_le_succ (hvalue a ha),
    fun e he hle => herror e he (Nat.le_of_succ_le_succ hle)⟩

theorem fitsIn_variableOver (name : String) :
    FitsIn room 0 (Level.variableOver rules depth below expanding name) := by
  intro s hs
  rw [exec_variableOver_of_isConcrete name hs]
  exact ⟨hs, fun _ _ => Nat.zero_le room, fun e he _ => s.store.failsOnly_require name e he⟩

theorem fitsIn_argumentsAt {level : Level} (hlevel : level.Within room) (expanding : List String)
    (args : List Argument) (done : Arguments) :
    FitsIn room (Segment.callDepthOfArgs args) (Level.argumentsAt level expanding args done) := by
  induction args generalizing done with
  | nil => exact fitsIn_ok done
  | cons a rest ih =>
    -- However deep calls are nested in the argument, the others follow on top of its value.
    have hnext {m : Evaluation Value} (hm : FitsIn room (Segment.callDepthOfArg a) m) :
        FitsIn room (Segment.callDepthOfArgs (a :: rest))
          (m >>= fun v => Level.argumentsAt level expanding rest (done.add a.key v)) :=
      hm.bind fun v => ih (done.add a.key v)
    cases a with
    | literal key v source => exact hnext (m := pure v) (fitsIn_ok v)
    | quoted key q body source =>
      have hquoted := hnext ((hlevel expanding body).map fun v => Value.string v.render)
      rwa [bind_assoc] at hquoted
    | expr key body source => exact hnext (hlevel expanding body)

section Verbs

variable (hverbs : rules.verbs.IsFlat)

include hverbs

theorem fitsIn_invoke (readings : ℕ) (name : String) (args : Arguments) :
    FitsIn room 0 (rules.invoke (rules.fresh readings) name args) := by
  intro s hs
  obtain ⟨result, s', hconcrete, hresult, hexec⟩ := exists_exec_invoke hverbs name args hs
  rw [hexec rules.limit readings]
  exact ⟨hconcrete, fun _ _ => Nat.zero_le room, fun e he _ => hresult e he⟩

variable (hbelow : BelowWithin room below)

include hbelow

theorem fitsIn_callOver (c : Call) :
    FitsIn room c.depth
      (Level.callOver rules (rules.fresh readings) depth below expanding c) := by
  cases hknown : rules.verbs.contains c.name with
  | false =>
    rw [Level.callOver, hknown]
    exact fitsIn_error rfl
  | true =>
    rw [callOver_eq_of_contains hknown]
    cases hbelow with
    | none =>
      -- A call is at least one deep, so there is no room for it.
      exact keeps_throw fun hle => absurd hle (Nat.not_succ_le_zero _)
    | some hlevel =>
      have hwork := (fitsIn_argumentsAt hlevel expanding c.args .none).bind
        fun args => fitsIn_invoke hverbs readings c.name args
      rw [Nat.max_zero] at hwork
      exact fitsIn_descend hwork

theorem fitsIn_segmentOver (s : Segment) :
    FitsIn room s.callDepth
      (Level.segmentOver rules (rules.fresh readings) depth below expanding s) := by
  cases s with
  | text text => exact fitsIn_ok (Value.string text)
  | var name => exact fitsIn_variableOver name
  | call c =>
    rw [Template.callDepth_call]
    exact fitsIn_callOver hverbs hbelow c

theorem fitsIn_textOver (segments : List Segment) :
    FitsIn room (Segment.callDepthOfSegments segments)
      (Level.textOver rules (rules.fresh readings) depth below expanding segments) := by
  induction segments with
  | nil => exact fitsIn_ok ""
  | cons s rest ih =>
    exact (fitsIn_segmentOver hverbs hbelow s).bind fun v => ih.map fun more => v.render ++ more

theorem fitsIn_templateOver (segments : List Segment) :
    FitsIn room (Segment.callDepthOfSegments segments)
      (Level.templateOver rules (rules.fresh readings) depth below expanding segments) := by
  unfold Level.templateOver
  cases hsole : (Template.mk segments).solePlaceholder? with
  | some s =>
    have hsegments : segments = [s] := by
      unfold Template.solePlaceholder? at hsole
      split at hsole <;> cases hsole <;> assumption
    rw [hsegments, Segment.callDepthOfSegments, Segment.callDepthOfSegments, Nat.max_zero]
    exact fitsIn_segmentOver hverbs hbelow s
  | none => exact (fitsIn_textOver hverbs hbelow segments).map Value.string

end Verbs

/-- The induction is on the number of levels that may yet be opened. -/
theorem within_tower (hverbs : rules.verbs.IsFlat) (readings room depth : ℕ) :
    (Level.tower rules (rules.fresh readings) room depth).Within room := by
  induction room generalizing depth with
  | zero => exact fun expanding segments => fitsIn_templateOver hverbs .none segments
  | succ room ih =>
    exact fun expanding segments => fitsIn_templateOver hverbs (.some (ih (depth + 1))) segments

end Fitting

/-! ## Beside a higher limit -/

section Raising

variable {α β : Type} {verbs : Registry} {limit limit' readings depth : ℕ}
  {below below' : Option (Unit → Level)} {expanding : List String}

/-- From a store without deferred variables an evaluation does what another one does, unless it
exceeds the limit; it defines no deferred variable. -/
def LimitedTo (limit : ℕ) (α : Type) (m m' : Evaluation α) : Prop :=
  ∀ s : Session, s.store.IsConcrete → (exec m s).2.store.IsConcrete ∧
    (exec m s = exec m' s ∨ (exec m s).1 = .error (.recursionLimit limit))

theorem limitedTo_lift (result : Except Error α) :
    LimitedTo limit α (Evaluation.lift result) (Evaluation.lift result) :=
  fun _ hs => ⟨hs, .inl rfl⟩

theorem LimitedTo.bind {m m' : Evaluation α} {f f' : α → Evaluation β}
    (hm : LimitedTo limit α m m') (hf : ∀ a, LimitedTo limit β (f a) (f' a)) :
    LimitedTo limit β (m >>= f) (m' >>= f') := by
  intro s hs
  obtain ⟨hconcrete, hsame | hstopped⟩ := hm s hs
  · rw [exec_bind, exec_bind, ← hsame]
    rcases hexec : exec m s with ⟨e | a, s₁⟩ <;> rw [hexec] at hconcrete
    · exact ⟨hconcrete, .inl rfl⟩
    · exact hf a s₁ hconcrete
  · rw [exec_bind]
    rcases hexec : exec m s with ⟨e | a, s₁⟩ <;> rw [hexec] at hconcrete hstopped
    · cases hstopped
      exact ⟨hconcrete, .inr rfl⟩
    · cases hstopped

theorem isSequential_limitedTo : Value.IsSequential (LimitedTo limit) :=
  ⟨fun a => limitedTo_lift (.ok a), LimitedTo.bind⟩

/-- Whatever template is evaluated, a level does what another one does, unless it exceeds the
limit. -/
def Level.LimitedTo (limit : ℕ) (level level' : Level) : Prop :=
  ∀ expanding segments, Casebook.LimitedTo limit Value (level.template expanding segments)
    (level'.template expanding segments)

theorem limitedTo_descend {level level' : Unit → Level} {work work' : Level → Evaluation α}
    (hwork : LimitedTo limit α (work (level ())) (work' (level' ()))) :
    LimitedTo limit α (Level.descend ⟨verbs, limit⟩ depth (some level) expanding work)
      (Level.descend ⟨verbs, limit'⟩ depth (some level') expanding work') := by
  intro s hs
  obtain ⟨hconcrete, hsame | hstopped⟩ :=
    hwork { s with journal := .opened (depth + 1) expanding :: s.journal } hs
  · rw [exec_descend, exec_descend, ← hsame]
    exact ⟨hconcrete, .inl rfl⟩
  · rw [exec_descend]
    exact ⟨hconcrete, .inr hstopped⟩

theorem limitedTo_callOver (hverbs : verbs.IsFlat)
    (hbelow : Level.BelowRelated (Level.LimitedTo limit) below below') (c : Call) :
    LimitedTo limit Value
      (Level.callOver ⟨verbs, limit⟩ (Rules.fresh ⟨verbs, limit⟩ readings) depth below expanding c)
      (Level.callOver ⟨verbs, limit'⟩ (Rules.fresh ⟨verbs, limit'⟩ readings) depth below' expanding
        c) := by
  cases hknown : verbs.contains c.name with
  | false =>
    rw [Level.callOver, Level.callOver, hknown]
    exact limitedTo_lift (.error _)
  | true =>
    rw [callOver_eq_of_contains hknown, callOver_eq_of_contains hknown]
    cases below with
    | none => exact fun _ hs => ⟨hs, .inr rfl⟩
    | some level =>
      obtain ⟨level', rfl, hlevel⟩ := hbelow level rfl
      have hinvoke (args : Arguments) : LimitedTo limit Value
          (Rules.invoke ⟨verbs, limit⟩ (Rules.fresh ⟨verbs, limit⟩ readings) c.name args)
          (Rules.invoke ⟨verbs, limit'⟩ (Rules.fresh ⟨verbs, limit'⟩ readings) c.name args) := by
        intro s hs
        obtain ⟨result, s', hconcrete, -, hexec⟩ := exists_exec_invoke hverbs c.name args hs
        rw [hexec, hexec]
        exact ⟨hconcrete, .inl rfl⟩
      exact limitedTo_descend ((Level.rel_argumentsAt_of_template isSequential_limitedTo
        (hlevel expanding) c.args .none).bind hinvoke)

theorem limitedTo_above (hverbs : verbs.IsFlat)
    (hbelow : Level.BelowRelated (Level.LimitedTo limit) below below') :
    (Level.above ⟨verbs, limit⟩ (Rules.fresh ⟨verbs, limit⟩ readings) depth below).LimitedTo limit
      (Level.above ⟨verbs, limit'⟩ (Rules.fresh ⟨verbs, limit'⟩ readings) depth below') := by
  intro expanding segments
  have hvar (name : String) : LimitedTo limit Value
      (Level.variableOver ⟨verbs, limit⟩ depth below expanding name)
      (Level.variableOver ⟨verbs, limit'⟩ depth below' expanding name) := by
    intro s hs
    rw [exec_variableOver_of_isConcrete name hs, exec_variableOver_of_isConcrete name hs]
    exact ⟨hs, .inl rfl⟩
  exact Level.rel_templateOver_of_placeholders isSequential_limitedTo hvar
    (limitedTo_callOver hverbs hbelow) segments

end Raising

/-! ## Actions -/

/-- Where no variable is deferred and no verb defines one or resolves anything, a call never exceeds
a limit that calls are not nested deeper in it than. Any other limit it exceeds, if it succeeds
under a higher one. -/
theorem Context.evaluateCall_fits {c : Context} (concrete : c.store.IsConcrete)
    (flat : c.verbs.IsFlat) (call : Call) :
    (call.depth ≤ c.limit → ∀ n, (c.evaluateCall call).1 ≠ .error (.recursionLimit n)) ∧
      (c.limit < call.depth → ∀ limit v, c.limit ≤ limit →
        ({ c with limit }.evaluateCall call).1 = .ok v →
          (c.evaluateCall call).1 = .error (.recursionLimit c.limit)) := by
  have hwithin : c.level.Within c.limit := within_tower flat c.readings c.limit 0
  have hfits := hwithin [] [.call call]
  rw [Segment.callDepthOfSegments, Segment.callDepthOfSegments, Template.callDepth_call,
    Nat.max_zero] at hfits
  obtain ⟨-, hvalue, herror⟩ := hfits ⟨c.store, []⟩ concrete
  refine ⟨fun hle n h => Bool.noConfusion (herror _ h hle), fun hlt limit v hle hok => ?_⟩
  have hlimited : c.level.LimitedTo c.limit (level { c with limit }) :=
    Level.rel_tower (fun _ _ _ => limitedTo_above flat) hle 0
  obtain ⟨-, hsame | hexceeded⟩ := hlimited [] [.call call] ⟨c.store, []⟩ concrete
  · -- It would succeed without the room that its calls need.
    have hok' : (c.evaluateCall call).1 = .ok v := (congrArg Prod.fst hsame).trans hok
    exact absurd (hvalue v hok') (Nat.not_le.mpr hlt)
  · exact hexceeded

namespace Action

/-- Under every limit there is an action that is accepted, and exceeds it wherever it succeeds under
a higher one. -/
theorem exists_parse_exceeds (limit : ℕ) :
    ∃ text a, parse limit text = .ok a ∧ ∀ c : Context, c.limit = limit → c.store.IsConcrete →
      c.verbs.IsFlat → ∀ higher v, limit ≤ higher →
        ({ c with limit := higher }.evaluateCall a.call).1 = .ok v →
          (c.evaluateCall a.call).1 = .error (.recursionLimit limit) := by
  obtain ⟨text, call, hcall, hdepth⟩ := Template.exists_parseCall_depth_eq limit
  refine ⟨text, ⟨Text.trimmed text, call⟩, map_eq_ok.mpr ⟨call, hcall, rfl⟩, ?_⟩
  rintro c rfl concrete flat
  exact (Context.evaluateCall_fits concrete flat call).2 (by omega)

/-- The limit of an action when it is read and its limit when it is run differ by the outermost call
of its bare form. An action that is accepted under a limit has its calls nested one level deeper
than that at most, and no deeper if it is written in braces. Where no variable is deferred and no
verb defines one or resolves anything, it never exceeds a limit that its calls are not nested deeper
than; any other limit it exceeds, if it succeeds under a higher one. -/
theorem limits_agree_up_to_one {limit : ℕ} {text : String} {a : Action}
    (accepted : parse limit text = .ok a) {c : Context} (concrete : c.store.IsConcrete)
    (flat : c.verbs.IsFlat) :
    (a.call.depth ≤ limit + 1 ∧ (a.IsWrapped → a.call.depth ≤ limit)) ∧
      (a.call.depth ≤ c.limit → ∀ n, (c.evaluateCall a.call).1 ≠ .error (.recursionLimit n)) ∧
      (c.limit < a.call.depth → ∀ higher v, c.limit ≤ higher →
        ({ c with limit := higher }.evaluateCall a.call).1 = .ok v →
          (c.evaluateCall a.call).1 = .error (.recursionLimit c.limit)) :=
  ⟨depth_le_of_parse accepted, Context.evaluateCall_fits concrete flat a.call⟩

/-- A context of two verbs that resolve nothing, where one level may be open. -/
def checking : Context where
  store := Store.empty 0
  verbs := [("SetVar", ⟨.exact ["name", "value"], .direct Builtin.setVar⟩),
    ("VerifyEqual", ⟨.exact ["actual", "expected"], .direct Builtin.verifyEqual⟩)]
  limit := 1

/-- An action that checks what another call gives. -/
def nestedCheck : Action :=
  ⟨"VerifyEqual($\x7bSetVar(x, 1)\x7d, 1)", ⟨"VerifyEqual",
    [.expr none [.call ⟨"SetVar", [.literal none (.string "x") "x",
      .literal none (.number (.int 1)) "1"]⟩] "$\x7bSetVar(x, 1)\x7d",
      .literal none (.number (.int 1)) "1"]⟩⟩

theorem parse_nestedCheck : parse 1 nestedCheck.source = .ok nestedCheck := by
  cbv

/-- The action is accepted under a limit of one and exceeds it when it is run. In braces it is
refused. -/
theorem parse_accepts_too_deep :
    parse 1 nestedCheck.source = .ok nestedCheck ∧
      parse 1 "$\x7bVerifyEqual($\x7bSetVar(x, 1)\x7d, 1)\x7d" = .error (.recursionLimit 1) ∧
      checking.limit = 1 ∧ checking.store.IsConcrete ∧ checking.verbs.IsDirect ∧
      (checking.evaluateCall nestedCheck.call).1 = .error (.recursionLimit 1) := by
  refine ⟨parse_nestedCheck, by cbv, rfl, (fun _ _ h => nomatch h), fun name verb hverb => ?_, rfl⟩
  have hmem := Dict.mem_of_get? hverb
  simp only [checking, List.mem_cons, List.not_mem_nil, or_false] at hmem
  rcases hmem with hmem | hmem <;> cases hmem <;> exact ⟨_, rfl⟩

/-- With the built-in verbs one level more is enough for the action. -/
theorem limits_agree_up_to_one_nestedCheck :
    parse 1 nestedCheck.source = .ok nestedCheck ∧ nestedCheck.call.depth = 2 ∧
      (∀ n, (((Context.withBuiltins 0).setLimit 2).evaluateCall nestedCheck.call).1 ≠
        .error (.recursionLimit n)) ∧
      (((Context.withBuiltins 0).setLimit 1).evaluateCall nestedCheck.call).1 =
        .error (.recursionLimit 1) := by
  have hconcrete : (Store.empty 0).IsConcrete := fun _ _ h => nomatch h
  have hflat := Builtin.isFlat_registry
  have hdepth : nestedCheck.call.depth = 2 := by decide
  have hok : (((Context.withBuiltins 0).setLimit 2).evaluateCall nestedCheck.call).1 =
      .ok (.bool true) := rfl
  obtain ⟨-, hnever, -⟩ :=
    limits_agree_up_to_one (c := (Context.withBuiltins 0).setLimit 2) parse_nestedCheck
      hconcrete hflat
  obtain ⟨-, -, hexceeds⟩ :=
    limits_agree_up_to_one (c := (Context.withBuiltins 0).setLimit 1) parse_nestedCheck
      hconcrete hflat
  exact ⟨parse_nestedCheck, hdepth, hnever (Nat.le_of_eq hdepth),
    hexceeds (by decide) 2 (.bool true) (by decide) hok⟩

end Action

end Casebook
