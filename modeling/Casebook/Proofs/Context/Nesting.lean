import Casebook.Proofs.Context.Placeholders
import Casebook.Proofs.Template.PlainText
import Mathlib.Data.List.Nodup
import Mathlib.Logic.Function.Iterate

/-!
# Levels inside of levels

Values, texts, templates, calls and deferred variables lead to one another through what is bound in
the store, so nothing becomes smaller on the way. What bounds an evaluation is the number of levels
that are open: the recursion into levels, with no other bound, does what the tower of levels does,
as long as no verb starts a reading of its own.

The journal tells which levels are open. `Inside` is the invariant that they are no more than the
limit and that each of them expands what the one around it expands, or one more variable, which was
deferred then and not being expanded yet. `Guards` sets an evaluation beside one that checks neither
the limit nor what is being expanded: they do the same until the unchecked one opens a level too
many, if the checked one did not end before.
-/

namespace Casebook

open Computation

/-! ## The levels that are open -/

/-- The levels that are open, innermost first: the variables that are being expanded in each, and
what was done before it was opened. -/
abbrev OpenLevels := List (List String × List Event)

/-- The variables that are being expanded in the innermost level, outermost first. -/
def OpenLevels.expanding : OpenLevels → List String
  | [] => []
  | (expanding, _) :: _ => expanding

/-- The levels that are open after what a journal tells. -/
def openLevels : List Event → OpenLevels
  | [] => []
  | .opened _ expanding :: before => (expanding, before) :: openLevels before
  | .closed :: before => (openLevels before).tail
  | .invoked _ _ :: before => openLevels before

/-- No verb reads a variable afresh. -/
def Registry.IsDirect (verbs : Registry) : Prop :=
  ∀ name verb, verbs.get? name = some verb → ∃ run, verb.body = .direct run

namespace Rules

variable (rules : Rules) (store : Store)

/-- The store after what a journal tells, from a store at its beginning; only verbs change it. -/
def storeAt : List Event → Store
  | [] => store
  | .opened _ _ :: before => storeAt before
  | .closed :: before => storeAt before
  | .invoked name args :: before =>
    match rules.verbs.get? name with
    | some ⟨_, .direct run⟩ => (exec (run args) (storeAt before)).2
    | _ => storeAt before

/-- Each level expands what the one around it expands, or one more variable, which was deferred when
the level was opened and was not being expanded. -/
inductive Layered : OpenLevels → Prop where
  | nil : Layered []
  | expansion {outer : OpenLevels} {name : String} {before : List Event} (inner : Layered outer)
      (deferred : (rules.storeAt store before).isDeferred name = true)
      (fresh : name ∉ outer.expanding) : Layered ((outer.expanding ++ [name], before) :: outer)
  | call {outer : OpenLevels} {before : List Event} (inner : Layered outer) :
      Layered ((outer.expanding, before) :: outer)

namespace Layered

variable {rules store} {levels : OpenLevels}

theorem tail (h : rules.Layered store levels) : rules.Layered store levels.tail := by
  cases h with
  | nil => exact .nil
  | expansion inner => exact inner
  | call inner => exact inner

theorem nodup (h : rules.Layered store levels) : levels.expanding.Nodup := by
  induction h with
  | nil => exact List.nodup_nil
  | expansion _ _ fresh ih =>
    rw [OpenLevels.expanding, ← List.concat_eq_append]
    exact (List.nodup_concat _ _).mpr ⟨fresh, ih⟩
  | call _ ih => exact ih

/-- Each variable that is being expanded has a level of its own, and was deferred when that was
opened. -/
theorem exists_of_mem (h : rules.Layered store levels) :
    ∀ name ∈ levels.expanding, ∃ level ∈ levels, ∃ outer, level.1 = outer ++ [name] ∧
      (rules.storeAt store level.2).isDeferred name = true := by
  induction h with
  | nil => exact fun name hname => absurd hname List.not_mem_nil
  | @expansion outer name before _ deferred _ ih =>
    intro other hother
    rcases List.mem_append.mp hother with hother | hother
    · obtain ⟨level, hlevel, hdeferred⟩ := ih other hother
      exact ⟨level, List.mem_cons_of_mem _ hlevel, hdeferred⟩
    · rw [List.mem_singleton.mp hother]
      exact ⟨_, List.mem_cons_self, outer.expanding, rfl, deferred⟩
  | call _ ih =>
    intro name hname
    obtain ⟨level, hlevel, hdeferred⟩ := ih name hname
    exact ⟨level, List.mem_cons_of_mem _ hlevel, hdeferred⟩

end Layered

end Rules

/-! ## Levels without a tower -/

namespace Level

variable (rules : Rules) (fresh : String → Evaluation Value)

/-- The level where so many are open, given the one where one more is: the recursion with no bound
but the limit of levels, unfolded once. -/
def checkedOver (deeper : ℕ → Level) (depth : ℕ) : Level :=
  above rules fresh depth
    (if depth < rules.limit then some fun _ => deeper (depth + 1) else none)

/-- A level that does not know which variables are being expanded. -/
def forgetting (level : Level) : Level where
  template _ := level.template []
  value _ := level.value []

/-- The level with so many levels below it that knows neither the limit nor which variables are being
expanded. -/
def unchecked : (room depth : ℕ) → Level
  | 0, depth => (above rules fresh depth none).forgetting
  | room + 1, depth =>
    (above rules fresh depth (some fun _ => unchecked room (depth + 1))).forgetting

/-- However often it is unfolded beyond the limit, the recursion comes to the tower of levels. -/
theorem iterate_checkedOver_eq_tower (bottom : ℕ → Level) {n room depth : ℕ}
    (hdepth : depth + room = rules.limit) (hn : room < n) :
    (checkedOver rules fresh)^[n] bottom depth = tower rules fresh room depth := by
  induction n generalizing room depth with
  | zero => omega
  | succ n ih =>
    rw [Function.iterate_succ_apply', checkedOver]
    cases room with
    | zero =>
      rw [if_neg (by omega)]
      rfl
    | succ room =>
      have hbelow : depth + 1 + room = rules.limit := by omega
      rw [if_pos (by omega), ih hbelow (by omega)]
      rfl

/-! ### Verbs that do not read afresh -/

variable {rules fresh} {fresh' : String → Evaluation Value}

theorem invoke_eq_of_isDirect (hdirect : rules.verbs.IsDirect) :
    rules.invoke fresh = rules.invoke fresh' := by
  funext name args
  unfold Rules.invoke
  split
  · rfl
  · next verb hverb =>
    obtain ⟨run, hrun⟩ := hdirect name verb hverb
    simp only [hrun]

/-- Where no verb reads afresh, it does not matter how variables are read afresh. -/
theorem above_eq_of_isDirect (hdirect : rules.verbs.IsDirect) (depth : ℕ)
    (below : Option (Unit → Level)) :
    above rules fresh depth below = above rules fresh' depth below := by
  have hcall : callOver rules fresh depth below = callOver rules fresh' depth below := by
    funext expanding c
    rw [callOver, callOver, invoke_eq_of_isDirect hdirect]
  have hplaceholders (expanding : List String) : placeholders rules fresh depth below expanding =
      placeholders rules fresh' depth below expanding := by
    rw [placeholders, placeholders, hcall]
  have htemplate : templateOver rules fresh depth below = templateOver rules fresh' depth below := by
    funext expanding segments
    rw [templateOver_eq, templateOver_eq, hplaceholders]
  have hvalue : valueOver rules fresh depth below = valueOver rules fresh' depth below := by
    funext expanding v
    rw [valueOver_eq, valueOver_eq, hplaceholders]
  rw [above, above, htemplate, hvalue]

theorem tower_eq_of_isDirect (hdirect : rules.verbs.IsDirect) (room depth : ℕ) :
    tower rules fresh room depth = tower rules fresh' room depth := by
  induction room generalizing depth with
  | zero => exact above_eq_of_isDirect hdirect depth none
  | succ room ih =>
    rw [tower, tower, ih]
    exact above_eq_of_isDirect hdirect depth _

end Level

/-! ## Side by side with an unchecked evaluation -/

section Guarding

variable (rules : Rules) (store : Store)

/-- These levels are open, and there were never more than the limit, each over the one around it; the
store is what verbs made of it since the beginning. -/
structure Inside (levels : OpenLevels) (s : Session) : Prop where
  openLevels_eq : openLevels s.journal = levels
  layered : ∀ moment, moment <:+ s.journal → rules.Layered store (openLevels moment)
  length_le : ∀ moment, moment <:+ s.journal → (openLevels moment).length ≤ rules.limit
  store_eq : s.store = rules.storeAt store s.journal

/-- An evaluation has so many levels open, and never had more than the limit. -/
structure Shallow (depth : ℕ) (s : Session) : Prop where
  length_eq : (openLevels s.journal).length = depth
  length_le : ∀ moment, moment <:+ s.journal → (openLevels moment).length ≤ rules.limit

/-- An error says that the limit is exceeded, or that a variable is read while it is being
expanded. -/
def Rules.Refuses (e : Error) : Prop :=
  e = .recursionLimit rules.limit ∨ ∃ chain, e = .cyclicVariable chain

/-- From these states an evaluation leaves the levels as they are. Beside an evaluation that is
unchecked it refuses to go on, or they come to the same result and leave the same store, with no more
than the limit of levels open at any moment. -/
def GuardsAt (levels : OpenLevels) {α : Type} (s s' : Session) (m m' : Evaluation α) : Prop :=
  Inside rules store levels (exec m s).2 ∧
    ((∃ e, (exec m s).1 = .error e ∧ rules.Refuses e) ∨
      (exec m' s').1 = (exec m s).1 ∧ (exec m' s').2.store = (exec m s).2.store ∧
        Shallow rules levels.length (exec m' s').2)

/-- So it is from all states inside of the levels, beside one with the same store. -/
def Guards (levels : OpenLevels) (α : Type) (m m' : Evaluation α) : Prop :=
  ∀ s s', Inside rules store levels s → s'.store = s.store → Shallow rules levels.length s' →
    GuardsAt rules store levels s s' m m'

/-- A level guards another one wherever so many levels are open, whatever is said to be expanded in
the other one. -/
def LevelGuards (depth : ℕ) (level level' : Level) : Prop :=
  ∀ (levels : OpenLevels) (said : List String), levels.length = depth →
    (∀ segments, Guards rules store levels Value (level.template levels.expanding segments)
      (level'.template said segments)) ∧
    ∀ v, Guards rules store levels Value (level.value levels.expanding v) (level'.value said v)

end Guarding

section Guards

variable {rules : Rules} {store : Store} {levels : OpenLevels} {α β : Type}

theorem inside_nil (rules : Rules) (store : Store) : Inside rules store [] ⟨store, []⟩ where
  openLevels_eq := rfl
  layered moment hmoment := by
    rw [List.suffix_nil.mp hmoment]
    exact .nil
  length_le moment hmoment := by
    rw [List.suffix_nil.mp hmoment]
    exact Nat.zero_le _
  store_eq := rfl

theorem shallow_nil (rules : Rules) (store : Store) : Shallow rules 0 ⟨store, []⟩ where
  length_eq := rfl
  length_le := (inside_nil rules store).length_le

theorem Inside.layered_self {s : Session} (h : Inside rules store levels s) :
    rules.Layered store levels :=
  h.openLevels_eq ▸ h.layered s.journal List.suffix_rfl

/-- What holds at a moment and at every moment before it. -/
theorem forall_suffix_cons {P : List Event → Prop} {e : Event} {before : List Event}
    (hself : P (e :: before)) (hbefore : ∀ moment, moment <:+ before → P moment) :
    ∀ moment, moment <:+ e :: before → P moment := by
  intro moment hmoment
  rcases List.suffix_cons_iff.mp hmoment with rfl | hmoment
  · exact hself
  · exact hbefore moment hmoment

/-- What is noted leaves an evaluation inside of the levels that are open then. -/
theorem Inside.note {s : Session} (h : Inside rules store levels s) {e : Event}
    {levels' : OpenLevels} (hopen : openLevels (e :: s.journal) = levels')
    (hlayered : rules.Layered store levels') (hlength : levels'.length ≤ rules.limit)
    {changed : Store} (hstore : changed = rules.storeAt store (e :: s.journal)) :
    Inside rules store levels' ⟨changed, e :: s.journal⟩ := by
  subst hopen
  exact ⟨rfl, forall_suffix_cons hlayered h.layered, forall_suffix_cons hlength h.length_le, hstore⟩

/-- What is noted leaves an evaluation shallow if no level too many is open then. -/
theorem Shallow.note {depth depth' : ℕ} {s : Session} (h : Shallow rules depth s) {e : Event}
    (hlength : (openLevels (e :: s.journal)).length = depth') (hle : depth' ≤ rules.limit)
    (changed : Store) : Shallow rules depth' ⟨changed, e :: s.journal⟩ := by
  subst hlength
  exact ⟨rfl, forall_suffix_cons hle h.length_le⟩

theorem Inside.length_le_self {s : Session} (h : Inside rules store levels s) :
    levels.length ≤ rules.limit :=
  h.openLevels_eq ▸ h.length_le s.journal List.suffix_rfl

/-- A level that is opened over the others keeps to the limit if there was room for it. -/
theorem Inside.opened {s : Session} (h : Inside rules store levels s) {expanding : List String}
    (hroom : levels.length < rules.limit)
    (hlayered : rules.Layered store ((expanding, s.journal) :: levels)) (depth : ℕ) :
    Inside rules store ((expanding, s.journal) :: levels)
      { s with journal := .opened depth expanding :: s.journal } :=
  h.note (by rw [openLevels, h.openLevels_eq]) hlayered hroom h.store_eq

theorem Inside.closed {s : Session} {level : List String × List Event}
    (h : Inside rules store (level :: levels) s) :
    Inside rules store levels { s with journal := .closed :: s.journal } :=
  h.note (by rw [openLevels, h.openLevels_eq, List.tail_cons]) h.layered_self.tail
    (Nat.le_of_succ_le h.length_le_self) h.store_eq

/-- Running a verb changes the store as the journal then tells. -/
theorem Inside.invoked {s : Session} (h : Inside rules store levels s) {name : String}
    {args : Arguments} {signature : Signature} {run : Arguments → StoreAction Value}
    (hverb : rules.verbs.get? name = some ⟨signature, .direct run⟩) :
    Inside rules store levels
      ⟨(exec (run args) s.store).2, .invoked name args :: s.journal⟩ :=
  h.note (by rw [openLevels, h.openLevels_eq]) h.layered_self h.length_le_self
    (by rw [Rules.storeAt, hverb, ← h.store_eq])

/-! ### Sequences -/

theorem guards_lift (result : Except Error α) :
    Guards rules store levels α (Evaluation.lift result) (Evaluation.lift result) :=
  fun _ _ hs hstore hshallow => ⟨hs, .inr ⟨rfl, hstore, hshallow⟩⟩

theorem guards_pure (a : α) : Guards rules store levels α (pure a) (pure a) :=
  guards_lift (.ok a)

theorem guards_throw (e : Error) : Guards rules store levels α (throw e) (throw e) :=
  guards_lift (.error e)

theorem guards_bind {m m' : Evaluation α} {f f' : α → Evaluation β}
    (hm : Guards rules store levels α m m')
    (hf : ∀ a, Guards rules store levels β (f a) (f' a)) :
    Guards rules store levels β (m >>= f) (m' >>= f') := by
  intro s s' hs hstore hshallow
  obtain ⟨hs₁, hresult⟩ := hm s s' hs hstore hshallow
  rw [GuardsAt, exec_bind m, exec_bind m']
  rcases hexec : exec m s with ⟨e | a, s₁⟩ <;> rw [hexec] at hs₁ hresult
  · refine ⟨hs₁, hresult.imp (fun h => ?_) fun h => ?_⟩
    · obtain ⟨e', he', hrefuses⟩ := h
      cases he'
      exact ⟨e, rfl, hrefuses⟩
    · rcases hexec' : exec m' s' with ⟨result', s₁'⟩
      rw [hexec'] at h
      obtain ⟨rfl, hrest⟩ := h
      exact ⟨rfl, hrest⟩
  · rcases hresult with ⟨e', he', -⟩ | ⟨hsame, hstore₁, hshallow₁⟩
    · cases he'
    · rcases hexec' : exec m' s' with ⟨result', s₁'⟩
      rw [hexec'] at hsame hstore₁ hshallow₁
      subst hsame
      exact hf a s₁ s₁' hs₁ hstore₁ hshallow₁

theorem isSequential_guards :
    Value.IsSequential fun α => Guards rules store levels α :=
  ⟨guards_pure, guards_bind⟩

/-! ### Levels -/

variable {fresh fresh' : String → Evaluation Value} {depth depth' : ℕ}
  {below below' : Option (Unit → Level)}

/-- Below a level there is none, or one that guards the level below the other. -/
def BelowGuards (rules : Rules) (store : Store) (levels : OpenLevels)
    (below below' : Option (Unit → Level)) : Prop :=
  ∀ level, below = some level → levels.length < rules.limit ∧
    ∃ level', below' = some level' ∧
      LevelGuards rules store (levels.length + 1) (level ()) (level' ())

theorem exec_descend (level : Unit → Level) (expanding : List String)
    (work : Level → Evaluation α) (s : Session) :
    exec (Level.descend rules depth (some level) expanding work) s =
      let inner := exec (work (level ()))
        { s with journal := .opened (depth + 1) expanding :: s.journal }
      (inner.1, { inner.2 with journal := .closed :: inner.2.journal }) :=
  rfl

/-- Opening a level below, where the variables that are expanded there may be. -/
theorem guards_descend (hbelow : BelowGuards rules store levels below below')
    {expanding expanding' : List String} {work work' : Level → Evaluation α}
    (hwork : ∀ level level', LevelGuards rules store (levels.length + 1) level level' →
      ∀ before, Guards rules store ((expanding, before) :: levels) α (work level) (work' level'))
    {s s' : Session} (hs : Inside rules store levels s) (hstore : s'.store = s.store)
    (hshallow : Shallow rules levels.length s')
    (hlayered : rules.Layered store ((expanding, s.journal) :: levels)) :
    GuardsAt rules store levels s s' (Level.descend rules depth below expanding work)
      (Level.descend rules depth' below' expanding' work') := by
  cases below with
  | none => exact ⟨hs, .inl ⟨_, rfl, .inl rfl⟩⟩
  | some level =>
    obtain ⟨hroom, level', rfl, hlevel⟩ := hbelow level rfl
    have hopened : Shallow rules (levels.length + 1)
        { s' with journal := .opened (depth' + 1) expanding' :: s'.journal } :=
      hshallow.note (congrArg (· + 1) hshallow.length_eq) hroom s'.store
    obtain ⟨hinside, hresult⟩ := hwork _ _ hlevel s.journal _
      { s' with journal := .opened (depth' + 1) expanding' :: s'.journal }
      (hs.opened hroom hlayered (depth + 1)) hstore hopened
    rw [GuardsAt, exec_descend, exec_descend]
    refine ⟨hinside.closed, hresult.imp id fun h => ⟨h.1, h.2.1, ?_⟩⟩
    refine h.2.2.note ?_ (Nat.le_of_lt hroom) _
    rw [openLevels, List.length_tail, h.2.2.length_eq]
    rfl

/-- A deferred variable that is not being expanded is expanded in the level below. -/
theorem exec_variableOver_of_deferred {expanding : List String} {name : String} {v : Value}
    {s : Session} (hfind : s.store.find? name = some ⟨v, true⟩) (hmem : name ∉ expanding) :
    exec (Level.variableOver rules depth below expanding name) s =
      exec (Level.descend rules depth below (expanding ++ [name]) fun level =>
        level.value (expanding ++ [name]) v) s := by
  rw [Level.variableOver, exec_bind_of_ok (exec_get s), hfind]
  simp only [hmem, if_false]
  rfl

section Over

variable (hbelow : BelowGuards rules store levels below below')

include hbelow

theorem guards_variableOver (name : String) :
    Guards rules store levels Value
      (Level.variableOver rules depth below levels.expanding name)
      (Level.variableOver rules depth' below' [] name) := by
  intro s s' hs hstore hshallow
  cases hfind : s.store.find? name with
  | none =>
    rw [GuardsAt, Level.variableOver, Level.variableOver, exec_bind_of_ok (exec_get s),
      exec_bind_of_ok (exec_get s'), hstore, hfind]
    exact guards_throw _ s s' hs hstore hshallow
  | some binding =>
    obtain ⟨v, _ | _⟩ := binding
    · rw [GuardsAt, Level.variableOver, Level.variableOver, exec_bind_of_ok (exec_get s),
        exec_bind_of_ok (exec_get s'), hstore, hfind]
      exact guards_pure v s s' hs hstore hshallow
    by_cases hmem : name ∈ levels.expanding
    · rw [GuardsAt, Level.variableOver, exec_bind_of_ok (exec_get s), hfind]
      simp only [hmem, if_true]
      exact ⟨hs, .inl ⟨_, rfl, .inr ⟨_, rfl⟩⟩⟩
    · have hfind' : s'.store.find? name = some ⟨v, true⟩ := hstore ▸ hfind
      have hdeferred : (rules.storeAt store s.journal).isDeferred name = true := by
        rw [← hs.store_eq, Store.isDeferred_eq, hfind]
        rfl
      rw [GuardsAt, exec_variableOver_of_deferred hfind hmem,
        exec_variableOver_of_deferred hfind' List.not_mem_nil]
      exact guards_descend hbelow
        (fun level level' hlevel before => (hlevel ((_, before) :: levels) _ rfl).2 v)
        hs hstore hshallow (.expansion hs.layered_self hdeferred hmem)

end Over

theorem guards_argumentsAt {level level' : Level} {said : List String}
    (hlevel : LevelGuards rules store levels.length level level') (args : List Argument)
    (done : Arguments) :
    Guards rules store levels Arguments (Level.argumentsAt level levels.expanding args done)
      (Level.argumentsAt level' said args done) := by
  have htemplate body := (hlevel levels said rfl).1 body
  induction args generalizing done with
  | nil => exact guards_pure done
  | cons a rest ih =>
    cases a with
    | literal key v raw => exact ih (done.add key v)
    | quoted key q body raw => exact guards_bind (htemplate body) fun v => ih (done.add key _)
    | expr key body raw => exact guards_bind (htemplate body) fun v => ih (done.add key v)

theorem guards_run {name : String} {args : Arguments} {signature : Signature}
    {run : Arguments → StoreAction Value}
    (hverb : rules.verbs.get? name = some ⟨signature, .direct run⟩) :
    Guards rules store levels Value
      (do Evaluation.note (.invoked name args); Evaluation.onStore (run args))
      (do Evaluation.note (.invoked name args); Evaluation.onStore (run args)) := by
  have hexec (s : Session) :
      exec (do Evaluation.note (.invoked name args); Evaluation.onStore (run args)) s =
        ((exec (run args) s.store).1,
          ⟨(exec (run args) s.store).2, .invoked name args :: s.journal⟩) :=
    rfl
  intro s s' hs hstore hshallow
  rw [GuardsAt, hexec, hexec, hstore]
  have hnoted : Shallow rules levels.length
      ⟨(exec (run args) s.store).2, .invoked name args :: s'.journal⟩ :=
    hshallow.note (e := .invoked name args) hshallow.length_eq hs.length_le_self _
  exact ⟨hs.invoked hverb, .inr ⟨rfl, rfl, hnoted⟩⟩

theorem guards_invoke (hdirect : rules.verbs.IsDirect) (name : String) (args : Arguments) :
    Guards rules store levels Value (rules.invoke fresh name args)
      (rules.invoke fresh' name args) := by
  unfold Rules.invoke
  cases hverb : rules.verbs.get? name with
  | none => exact guards_throw _
  | some verb =>
    obtain ⟨signature, body⟩ := verb
    obtain ⟨run, hrun⟩ := hdirect name _ hverb
    cases hrun
    exact guards_bind (guards_lift _) fun bound => guards_run hverb

/-- The arguments of a known verb are evaluated in the level below, and the verb is run there. -/
theorem callOver_eq_of_contains {expanding : List String} {c : Call}
    (hknown : rules.verbs.contains c.name = true) :
    Level.callOver rules fresh depth below expanding c =
      Level.descend rules depth below expanding (fun level => do
        let args ← Level.argumentsAt level expanding c.args Arguments.none
        rules.invoke fresh c.name args) := by
  rw [Level.callOver, hknown]
  rfl

section Over

variable (hbelow : BelowGuards rules store levels below below') (hdirect : rules.verbs.IsDirect)

include hbelow hdirect

theorem guards_callOver (c : Call) :
    Guards rules store levels Value (Level.callOver rules fresh depth below levels.expanding c)
      (Level.callOver rules fresh' depth' below' [] c) := by
  cases hknown : rules.verbs.contains c.name with
  | false =>
    rw [Level.callOver, Level.callOver, hknown]
    exact guards_throw (.unknownFunction c.name)
  | true =>
    rw [callOver_eq_of_contains hknown, callOver_eq_of_contains hknown]
    intro s s' hs hstore hshallow
    refine guards_descend hbelow (fun level level' hlevel before => ?_) hs hstore hshallow
      (.call hs.layered_self)
    have hargs : Guards rules store ((levels.expanding, before) :: levels) Arguments
        (Level.argumentsAt level levels.expanding c.args .none)
        (Level.argumentsAt level' [] c.args .none) := guards_argumentsAt hlevel c.args .none
    exact guards_bind hargs fun args => guards_invoke hdirect c.name args

theorem guards_templateOver (segments : List Segment) :
    Guards rules store levels Value
      (Level.templateOver rules fresh depth below levels.expanding segments)
      (Level.templateOver rules fresh' depth' below' [] segments) := by
  rw [Level.templateOver_eq rules fresh']
  exact rel_templateOver isSequential_guards (guards_variableOver hbelow)
    (guards_callOver hbelow hdirect) segments

theorem guards_valueOver (v : Value) :
    Guards rules store levels Value
      (Level.valueOver rules fresh depth below levels.expanding v)
      (Level.valueOver rules fresh' depth' below' [] v) := by
  rw [Level.valueOver_eq rules fresh']
  exact rel_valueOver isSequential_guards (guards_variableOver hbelow)
    (guards_callOver hbelow hdirect) guards_lift v

end Over

/-- A tower of levels guards one that is at least as high and unchecked. The induction is on the
number of levels that may yet be opened. -/
theorem levelGuards_tower (hdirect : rules.verbs.IsDirect) {room depth : ℕ}
    (hdepth : depth + room = rules.limit) (more : ℕ) :
    LevelGuards rules store depth (Level.tower rules fresh room depth)
      (Level.unchecked rules fresh' (room + more) depth) := by
  induction room generalizing depth with
  | zero =>
    have hbelow (levels : OpenLevels) (below' : Option (Unit → Level)) :
        BelowGuards rules store levels none below' := nofun
    cases more with
    | zero =>
      exact fun levels said _ => ⟨guards_templateOver (hbelow levels _) hdirect,
        guards_valueOver (hbelow levels _) hdirect⟩
    | succ more =>
      exact fun levels said _ => ⟨guards_templateOver (hbelow levels _) hdirect,
        guards_valueOver (hbelow levels _) hdirect⟩
  | succ room ih =>
    rw [Nat.add_right_comm]
    intro levels said hlength
    have hbelow : BelowGuards rules store levels
        (some fun _ => Level.tower rules fresh room (depth + 1))
        (some fun _ => Level.unchecked rules fresh' (room + more) (depth + 1)) := by
      intro level hlevel
      cases hlevel
      exact ⟨by omega, _, rfl, hlength ▸ ih (by omega)⟩
    exact ⟨guards_templateOver hbelow hdirect, guards_valueOver hbelow hdirect⟩

end Guards

/-! ## Evaluation in a context -/

namespace Context

/-- What is done when a value is evaluated in a context, the latest first. -/
def journalOf (c : Context) (level : Level) (v : Value) : List Event :=
  (exec (level.value [] v) ⟨c.store, []⟩).2.journal

section Parsing

variable (rules : Rules) (fresh : String → Evaluation Value) (depth : ℕ)
  (below : Option (Unit → Level))

/-- The value of a text that is read as a template even if it holds no dollar. -/
def parsedOver (expanding : List String) (text : String) : Evaluation Value := do
  let t ← Evaluation.lift (Template.parse rules.limit text)
  Level.templateOver rules fresh depth below expanding t.segments

/-- A level over the one below it that reads every text as a template. -/
def parsing : Level where
  template := Level.templateOver rules fresh depth below
  value expanding v := v.mapTexts (parsedOver rules fresh depth below expanding) fun key => do
    return (← parsedOver rules fresh depth below expanding key).render

/-- It does not matter whether a text without a dollar is read as a template, so levels can be
computed without looking for one. -/
theorem above_eq_parsing : Level.above rules fresh depth below = parsing rules fresh depth below := by
  have hstring : Level.stringOver rules fresh depth below = parsedOver rules fresh depth below := by
    funext expanding text session
    exact Template.exec_stringOver_eq text
  have hvalue : Level.valueOver rules fresh depth below =
      (parsing rules fresh depth below).value := by
    funext expanding v
    rw [Level.valueOver, hstring]
    rfl
  rw [Level.above, hvalue]
  rfl

end Parsing

/-- A variable whose text binds it anew before it leads into a circle of two others. -/
def rebinding : Context where
  store := (Store.empty 0).defineAll [("x", .string "$\x7bMark(x)\x7d$y"), ("y", .string "$z"),
    ("z", .string "$y")]
  verbs := [("Mark", ⟨.exact ["name"], .direct fun args => do
    modify fun s => s.set (args.text 0) (.bool true)
    return .null⟩)]
  limit := 3

theorem isDirect_rebinding : rebinding.verbs.IsDirect := by
  intro name verb hverb
  have hmem := Dict.mem_of_get? hverb
  cases List.mem_singleton.mp hmem
  exact ⟨_, rfl⟩

end Context

end Casebook
