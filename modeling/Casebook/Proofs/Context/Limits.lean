import Casebook.Context.Builtin
import Casebook.Proofs.Context.Invocations
import Casebook.Proofs.Template.Extent

/-!
# Raising the limit

The limit bounds how deep the placeholders of a text may be nested and how many levels may be open,
in an evaluation and in each fresh reading that a verb starts. It is only ever a guard: what
succeeds under a limit succeeds in the same way under a higher one.

`Evaluation.ExtendedBy m m'` says so of two evaluations, and sequences keep it. It would not survive
an error being caught, so of a verb that reads a variable afresh it has to be known that it fails
where the reading does. Other verbs do not come to know of the limit at all. Variables that lead to
themselves need no separate treatment, as nothing that goes in a circle succeeds.
-/

namespace Casebook

open Computation

/-! ## Verbs of a registry -/

section Registry

variable {α : Type} {P : String → α → Prop} {d : Dict α}

/-- What holds of the entries of a dictionary and of one more holds of those of both. -/
theorem Dict.forall_get?_insert (hd : ∀ key v, d.get? key = some v → P key v) (key : String) {v : α}
    (hv : P key v) : ∀ other w, (d.insert key v).get? other = some w → P other w := by
  intro other w hother
  by_cases hkey : key = other
  · subst hkey
    rw [Dict.get?_insert_self] at hother
    cases hother
    exact hv
  · rw [Dict.get?_insert_of_ne _ _ hkey] at hother
    exact hd other w hother

theorem Dict.forall_get?_insertAll (hd : ∀ key v, d.get? key = some v → P key v)
    {entries : List (String × α)} (hentries : ∀ entry ∈ entries, P entry.1 entry.2) :
    ∀ key v, (d.insertAll entries).get? key = some v → P key v := by
  induction entries generalizing d with
  | nil => exact hd
  | cons entry rest ih =>
    exact ih (Dict.forall_get?_insert hd entry.1 (hentries entry List.mem_cons_self))
      fun entry hentry => hentries entry (List.mem_cons_of_mem _ hentry)

/-- What holds of each built-in verb and its name holds of each verb of their registry. -/
theorem Builtin.forall_registry {P : String → Verb → Prop} (h : ∀ b ∈ all, P b.name b.verb) :
    ∀ name verb, registry.get? name = some verb → P name verb := by
  refine Dict.forall_get?_insertAll (fun _ _ h => nomatch h) fun entry hentry => ?_
  obtain ⟨b, hb, rfl⟩ := List.mem_map.mp hentry
  exact h b hb

end Registry

/-! ## Verbs that ignore the limit -/

/-- A verb works on the store alone, or it fails when the variable that it reads cannot be read. -/
def Verb.IgnoresLimit (verb : Verb) : Prop :=
  match verb.body with
  | .direct _ => True
  | .onVariable run =>
    ∀ args e store, ∃ e', (exec (run args (.error e)) store).1 = .error e'

/-- No verb makes anything of the limit. -/
def Registry.IgnoresLimit (verbs : Registry) : Prop :=
  ∀ name verb, verbs.get? name = some verb → verb.IgnoresLimit

namespace Builtin

theorem getVar_ignoresLimit (signature : Signature) :
    Verb.IgnoresLimit ⟨signature, .onVariable getVar⟩ :=
  fun _ e _ => ⟨e, rfl⟩

/-- An unbound variable fails the check, and so does any other error. -/
theorem verifyVar_ignoresLimit (signature : Signature) :
    Verb.IgnoresLimit ⟨signature, .onVariable verifyVar⟩ := by
  intro args e store
  unfold verifyVar
  split
  · next h => cases h
  · exact ⟨_, rfl⟩
  · exact ⟨_, rfl⟩

theorem ignoresLimit_of_mem_all : ∀ b ∈ all, b.verb.IgnoresLimit := by
  simp only [all, List.forall_mem_cons]
  exact ⟨trivial, trivial, getVar_ignoresLimit _, trivial, trivial, trivial,
    verifyVar_ignoresLimit _, trivial, trivial, trivial, trivial, List.forall_mem_nil _⟩

theorem ignoresLimit_registry : registry.IgnoresLimit :=
  forall_registry ignoresLimit_of_mem_all

end Builtin

/-! ## Texts under a higher limit -/

/-- A text parses to the same template under a higher limit. -/
theorem Template.parse_mono {limit limit' : ℕ} (hlimit : limit ≤ limit') {text : String}
    {t : Template} (h : parse limit text = .ok t) : parse limit' text = .ok t := by
  obtain ⟨ps, hps, rfl⟩ := parse_eq_ok.mp h
  exact parse_eq_ok.mpr ⟨ps, hps.mono fun _ _ _ => TakesPlaceholder.mono hlimit, rfl⟩

/-! ## Evaluations that succeed alike -/

/-- Where one evaluation succeeds, the other gives the same value and leaves the same session. -/
def Evaluation.ExtendedBy (α : Type) (m m' : Evaluation α) : Prop :=
  ∀ s a s', exec m s = (.ok a, s') → exec m' s = (.ok a, s')

namespace Evaluation

variable {α β : Type}

theorem extendedBy_refl (m : Evaluation α) : ExtendedBy α m m :=
  fun _ _ _ h => h

theorem ExtendedBy.trans {m m' m'' : Evaluation α} (h : ExtendedBy α m m')
    (h' : ExtendedBy α m' m'') : ExtendedBy α m m'' :=
  fun s a s₁ hexec => h' s a s₁ (h s a s₁ hexec)

/-- What never succeeds is extended by anything. -/
theorem throw_extendedBy (e : Error) (m : Evaluation α) : ExtendedBy α (throw e) m :=
  fun _ _ _ h => nomatch h

theorem lift_extendedBy {result result' : Except Error α}
    (h : ∀ a, result = .ok a → result' = .ok a) : ExtendedBy α (lift result) (lift result') := by
  intro s a s' hexec
  cases result with
  | error e => cases hexec
  | ok a' =>
    rw [h a' rfl]
    exact hexec

theorem ExtendedBy.bind {m m' : Evaluation α} {f f' : α → Evaluation β} (hm : ExtendedBy α m m')
    (hf : ∀ a, ExtendedBy β (f a) (f' a)) : ExtendedBy β (m >>= f) (m' >>= f') := by
  intro s b s' hexec
  obtain ⟨a, s₁, hfirst, hlater⟩ := exec_bind_eq_ok.mp hexec
  exact exec_bind_eq_ok.mpr ⟨a, s₁, hm s a s₁ hfirst, hf a s₁ b s' hlater⟩

theorem isSequential_extendedBy : Value.IsSequential ExtendedBy :=
  ⟨fun a => extendedBy_refl (pure a), ExtendedBy.bind⟩

end Evaluation

/-- Whatever succeeds at a level succeeds alike at the other one. -/
structure Level.ExtendedBy (level level' : Level) : Prop where
  template : ∀ expanding segments, Evaluation.ExtendedBy Value (level.template expanding segments)
    (level'.template expanding segments)
  value : ∀ expanding v, Evaluation.ExtendedBy Value (level.value expanding v)
    (level'.value expanding v)

/-! ## Two levels side by side -/

namespace Level

section Related

variable {R : (α : Type) → Evaluation α → Evaluation α → Prop} (hR : Value.IsSequential R)
  {expanding expanding' : List String}

include hR

/-- Arguments are related at two levels as soon as the templates in them are. -/
theorem rel_argumentsAt_of_template {level level' : Level}
    (htemplate : ∀ segments, R Value (level.template expanding segments)
      (level'.template expanding' segments)) (args : List Argument) (done : Arguments) :
    R Arguments (argumentsAt level expanding args done)
      (argumentsAt level' expanding' args done) := by
  induction args generalizing done with
  | nil => exact hR.pure done
  | cons a rest ih =>
    cases a with
    | literal key v source => exact hR.bind (hR.pure v) fun v => ih (done.add key v)
    | quoted key q body source =>
      exact hR.bind (htemplate body) fun v => hR.bind (hR.pure (Value.string v.render)) fun v =>
        ih (done.add key v)
    | expr key body source => exact hR.bind (htemplate body) fun v => ih (done.add key v)

/-- Templates are related at two levels as soon as their placeholders are. -/
theorem rel_templateOver_of_placeholders {rules rules' : Rules}
    {fresh fresh' : String → Evaluation Value} {depth depth' : ℕ}
    {below below' : Option (Unit → Level)}
    (hvar : ∀ name, R Value (variableOver rules depth below expanding name)
      (variableOver rules' depth' below' expanding' name))
    (hcall : ∀ c, R Value (callOver rules fresh depth below expanding c)
      (callOver rules' fresh' depth' below' expanding' c)) (segments : List Segment) :
    R Value (templateOver rules fresh depth below expanding segments)
      (templateOver rules' fresh' depth' below' expanding' segments) := by
  rw [templateOver_eq rules' fresh' depth' below' expanding' segments]
  exact rel_templateOver hR hvar hcall segments

end Related

/-- If there is a level below, then the other one is there as well and is related to it. -/
def BelowRelated (R : Level → Level → Prop) (below below' : Option (Unit → Level)) : Prop :=
  ∀ level, below = some level → ∃ level', below' = some level' ∧ R (level ()) (level' ())

theorem belowRelated_none {R : Level → Level → Prop} (below : Option (Unit → Level)) :
    BelowRelated R none below :=
  fun _ h => nomatch h

/-- Towers of which the second is at least as high are related if levels are that stand over related
ones. The induction is on the number of levels that may yet be opened. -/
theorem rel_tower {R : Level → Level → Prop} {rules rules' : Rules}
    {fresh fresh' : String → Evaluation Value}
    (habove : ∀ depth below below', BelowRelated R below below' →
      R (above rules fresh depth below) (above rules' fresh' depth below'))
    {room room' : ℕ} (hroom : room ≤ room') (depth : ℕ) :
    R (tower rules fresh room depth) (tower rules' fresh' room' depth) := by
  induction room generalizing room' depth with
  | zero =>
    obtain ⟨below', htower⟩ := Template.exists_tower_eq rules' fresh' room' depth
    rw [htower]
    exact habove depth none below' (belowRelated_none below')
  | succ room ih =>
    obtain ⟨room', rfl⟩ : ∃ r, room' = r + 1 := ⟨room' - 1, by omega⟩
    refine habove depth _ _ fun level hlevel => ⟨_, rfl, ?_⟩
    cases hlevel
    exact ih (Nat.le_of_succ_le_succ hroom) (depth + 1)

end Level

section Raising

open Evaluation

variable {verbs : Registry} {limit limit' : ℕ} {fresh fresh' : String → Evaluation Value}
  {depth : ℕ} {below below' : Option (Unit → Level)}

/-! ### Verbs -/

theorem exec_outcome_bind {α β : Type} (m : Evaluation α) (f : Except Error α → Evaluation β)
    (s : Session) : exec (m.outcome >>= f) s = exec (f (exec m s).1) (exec m s).2 :=
  exec_bind_of_ok rfl

/-- A verb that reads a variable afresh does so alike if the reading succeeds. If the reading fails,
the verb does not succeed at all. -/
theorem read_extendedBy {reading reading' : Evaluation Value}
    {run : Except Error Value → StoreAction Value} (hreading : ExtendedBy Value reading reading')
    (hrun : ∀ e store, ∃ e', (exec (run (.error e)) store).1 = .error e') :
    ExtendedBy Value (reading.outcome >>= fun found => onStore (run found))
      (reading'.outcome >>= fun found => onStore (run found)) := by
  intro s a s' hexec
  rw [exec_outcome_bind] at hexec ⊢
  rcases hread : exec reading s with ⟨e | v, s₁⟩ <;> rw [hread] at hexec
  · obtain ⟨e', he'⟩ := hrun e s₁.store
    have hfails : (exec (onStore (run (.error e))) s₁).1 = .error e' := he'
    rw [hexec] at hfails
    cases hfails
  · rw [hreading s v s₁ hread]
    exact hexec

theorem invoke_extendedBy (hverbs : verbs.IgnoresLimit)
    (hfresh : ∀ name, ExtendedBy Value (fresh name) (fresh' name)) (name : String)
    (args : Arguments) :
    ExtendedBy Value (Rules.invoke ⟨verbs, limit⟩ fresh name args)
      (Rules.invoke ⟨verbs, limit'⟩ fresh' name args) := by
  unfold Rules.invoke
  cases hverb : verbs.get? name with
  | none => exact throw_extendedBy _ _
  | some verb =>
    refine (extendedBy_refl _).bind fun bound => (extendedBy_refl _).bind fun _ => ?_
    have hignores := hverbs name verb hverb
    obtain ⟨signature, run | run⟩ := verb
    · exact extendedBy_refl _
    · exact read_extendedBy (hfresh (bound.text 0)) (hignores bound)

/-! ### Levels -/

section Over

variable (hbelow : Level.BelowRelated Level.ExtendedBy below below')

include hbelow

theorem descend_extendedBy {α : Type} {expanding : List String} {work work' : Level → Evaluation α}
    (hwork : ∀ level level', level.ExtendedBy level' →
      Evaluation.ExtendedBy α (work level) (work' level')) :
    Evaluation.ExtendedBy α (Level.descend ⟨verbs, limit⟩ depth below expanding work)
      (Level.descend ⟨verbs, limit'⟩ depth below' expanding work') := by
  cases below with
  | none => exact throw_extendedBy _ _
  | some level =>
    obtain ⟨level', rfl, hlevel⟩ := hbelow level rfl
    intro s a s' hexec
    rw [exec_descend] at hexec ⊢
    rcases hinner : exec (work (level ()))
      { s with journal := .opened (depth + 1) expanding :: s.journal } with ⟨result, s₁⟩
    rw [hinner] at hexec
    cases hexec
    rw [hwork _ _ hlevel _ a s₁ hinner]

theorem variableOver_extendedBy (expanding : List String) (name : String) :
    Evaluation.ExtendedBy Value (Level.variableOver ⟨verbs, limit⟩ depth below expanding name)
      (Level.variableOver ⟨verbs, limit'⟩ depth below' expanding name) := by
  refine (extendedBy_refl get).bind fun s => ?_
  split
  · exact throw_extendedBy _ _
  · split
    · exact extendedBy_refl _
    · split
      · exact throw_extendedBy _ _
      · exact descend_extendedBy hbelow fun _ _ hlevel => hlevel.value _ _

variable (hverbs : verbs.IgnoresLimit)
  (hfresh : ∀ name, ExtendedBy Value (fresh name) (fresh' name))

include hverbs hfresh

theorem callOver_extendedBy (expanding : List String) (c : Call) :
    Evaluation.ExtendedBy Value (Level.callOver ⟨verbs, limit⟩ fresh depth below expanding c)
      (Level.callOver ⟨verbs, limit'⟩ fresh' depth below' expanding c) := by
  unfold Level.callOver
  split
  · exact throw_extendedBy _ _
  · exact descend_extendedBy hbelow fun _ _ hlevel =>
      (Level.rel_argumentsAt_of_template isSequential_extendedBy (hlevel.template expanding)
        c.args .none).bind (invoke_extendedBy hverbs hfresh c.name)

end Over

/-- The texts of a value succeed alike under a higher limit, as each of them parses to the same. -/
theorem placeholders_value_extendedBy (hlimit : limit ≤ limit') (p : Placeholders Session)
    (v : Value) : ExtendedBy Value (p.value limit v) (p.value limit' v) := by
  have hstring (text : String) : ExtendedBy Value (p.string limit text) (p.string limit' text) := by
    unfold Placeholders.string
    split
    · have hparse : ExtendedBy Template (given (Template.parse limit text))
          (given (Template.parse limit' text)) :=
        lift_extendedBy fun t => Template.parse_mono hlimit
      exact hparse.bind fun t => extendedBy_refl _
    · exact extendedBy_refl _
  exact Value.rel_mapTexts isSequential_extendedBy v (fun text _ => hstring text) fun key _ =>
    (hstring key).bind fun _ => extendedBy_refl _

theorem above_extendedBy (hverbs : verbs.IgnoresLimit) (hlimit : limit ≤ limit')
    (hfresh : ∀ name, ExtendedBy Value (fresh name) (fresh' name))
    (hbelow : Level.BelowRelated Level.ExtendedBy below below') :
    (Level.above ⟨verbs, limit⟩ fresh depth below).ExtendedBy
      (Level.above ⟨verbs, limit'⟩ fresh' depth below') := by
  have hvar (expanding : List String) (name : String) :
      ExtendedBy Value (Level.variableOver ⟨verbs, limit⟩ depth below expanding name)
        (Level.variableOver ⟨verbs, limit'⟩ depth below' expanding name) :=
    variableOver_extendedBy hbelow expanding name
  have hcall (expanding : List String) (c : Call) :
      ExtendedBy Value (Level.callOver ⟨verbs, limit⟩ fresh depth below expanding c)
        (Level.callOver ⟨verbs, limit'⟩ fresh' depth below' expanding c) :=
    callOver_extendedBy hbelow hverbs hfresh expanding c
  refine ⟨fun expanding segments => ?_, fun expanding v => ?_⟩
  · exact Level.rel_templateOver_of_placeholders isSequential_extendedBy (hvar expanding)
      (hcall expanding) segments
  · let p : Placeholders Session := Level.placeholders ⟨verbs, limit'⟩ fresh' depth below' expanding
    have hvalue : ExtendedBy Value
        (Level.valueOver ⟨verbs, limit⟩ fresh depth below expanding v) (p.value limit v) :=
      rel_valueOver isSequential_extendedBy (hvar expanding) (hcall expanding)
        (fun _ => extendedBy_refl _) v
    have hraised := hvalue.trans (placeholders_value_extendedBy hlimit p v)
    rwa [← Level.valueOver_eq ⟨verbs, limit'⟩] at hraised

theorem tower_extendedBy (hverbs : verbs.IgnoresLimit) (hlimit : limit ≤ limit')
    (hfresh : ∀ name, ExtendedBy Value (fresh name) (fresh' name)) {room room' : ℕ}
    (hroom : room ≤ room') :
    (Level.tower ⟨verbs, limit⟩ fresh room depth).ExtendedBy
      (Level.tower ⟨verbs, limit'⟩ fresh' room' depth) :=
  Level.rel_tower (fun _ _ _ => above_extendedBy hverbs hlimit hfresh) hroom depth

/-- The induction is on the number of fresh readings that may be stacked. -/
theorem fresh_extendedBy (hverbs : verbs.IgnoresLimit) (hlimit : limit ≤ limit') {n n' : ℕ}
    (hn : n ≤ n') (name : String) :
    ExtendedBy Value (Rules.fresh ⟨verbs, limit⟩ n name) (Rules.fresh ⟨verbs, limit'⟩ n' name) := by
  induction n generalizing n' name with
  | zero =>
    have hunread (fresh' : String → Evaluation Value) (below' : Option (Unit → Level)) :
        ExtendedBy Value (Rules.fresh ⟨verbs, limit⟩ 0 name)
          ((Level.above ⟨verbs, limit'⟩ fresh' 0 below').template [] [.var name]) :=
      (above_extendedBy hverbs hlimit (fun other => throw_extendedBy _ (fresh' other))
        (Level.belowRelated_none below')).template [] [.var name]
    cases n' with
    | zero => exact hunread _ none
    | succ n' =>
      obtain ⟨below', htower⟩ := Template.exists_tower_eq ⟨verbs, limit'⟩
        (Rules.fresh ⟨verbs, limit'⟩ n') limit' 0
      rw [Rules.fresh, Rules.fresh, htower]
      exact hunread _ below'
  | succ n ih =>
    obtain ⟨n', rfl⟩ : ∃ r, n' = r + 1 := ⟨n' - 1, by omega⟩
    have hfresh (name : String) := ih (Nat.le_of_succ_le_succ hn) name
    exact (tower_extendedBy hverbs hlimit hfresh hlimit).template [] [.var name]

/-- What succeeds under a limit, with so many fresh readings stacked, succeeds alike under a higher
one, however many more readings may be stacked then. -/
theorem top_extendedBy (hverbs : verbs.IgnoresLimit) (hlimit : limit ≤ limit') {n n' : ℕ}
    (hn : n ≤ n') : (Rules.top ⟨verbs, limit⟩ n).ExtendedBy (Rules.top ⟨verbs, limit'⟩ n') :=
  tower_extendedBy hverbs hlimit (fresh_extendedBy hverbs hlimit hn) hlimit

end Raising

/-! ## Contexts under a higher limit -/

namespace Context

/-- The limit is only ever a guard. If a value is evaluated in a context of which no verb makes
anything of the limit, then under a higher limit it is evaluated in the same way: the value that is
given, the store that is left, the levels that are opened and the verbs that are run on their
arguments, in order, are the same. So it is however many fresh readings may be stacked, as long as
they are enough for the lower limit. -/
theorem resolveValue_of_le_limit (c : Context) (ignoring : c.verbs.IgnoresLimit) {limit : ℕ}
    (raised : c.limit ≤ limit) (v w : Value) :
    ((c.resolveValue v).1 = .ok w →
        ({ c with limit }.resolveValue v).1 = .ok w ∧
        ({ c with limit }.resolveValue v).2 = { (c.resolveValue v).2 with limit } ∧
        journalOf { c with limit } (level { c with limit }) v = c.journalOf c.level v) ∧
      ∀ n n' s, n ≤ n' → exec ((c.rules.top n).value [] v) ⟨c.store, []⟩ = (.ok w, s) →
        exec (((rules { c with limit }).top n').value [] v) ⟨c.store, []⟩ = (.ok w, s) := by
  have htop {n n' : ℕ} (hn : n ≤ n') (s : Session) :
      exec ((c.rules.top n).value [] v) ⟨c.store, []⟩ = (.ok w, s) →
        exec (((rules { c with limit }).top n').value [] v) ⟨c.store, []⟩ = (.ok w, s) :=
    (top_extendedBy ignoring raised hn).value [] v _ w s
  refine ⟨fun hok => ?_, fun n n' s hn => htop hn s⟩
  have hexec : exec (c.level.value [] v) ⟨c.store, []⟩ =
      (.ok w, (exec (c.level.value [] v) ⟨c.store, []⟩).2) := Prod.ext hok rfl
  have hraised := htop (Nat.le_refl c.readings) _ hexec
  exact ⟨congrArg Prod.fst hraised,
    congrArg (fun r => ({ store := r.2.store, verbs := c.verbs, limit } : Context)) hraised,
    congrArg (fun r => r.2.journal) hraised⟩

/-- A deferred variable that calls a verb which counts, and one that reads the first afresh. -/
def counting : Context where
  store := ((Store.empty 5).set "count" (.nat 0)).defineAll
    [("name", .string "item${Next()}"),
      ("title", .string "${GetVar(name)} at ${GetTimestamp()}")]
  verbs := Builtin.registry.insert "Next" ⟨.exact [], .direct fun _ => do
    let bound := ((← get).get? "count").getD .null
    let next := Value.string (bound.render ++ "+")
    modify fun s => s.set "count" next
    return next⟩
  limit := 2

theorem ignoresLimit_counting : counting.verbs.IgnoresLimit :=
  Dict.forall_get?_insert Builtin.ignoresLimit_registry "Next" trivial

/-- Two levels are enough to read the title, which goes through a fresh reading of the name. -/
theorem resolveValue_of_le_limit_counting :
    ∃ w, w.render = "[\"item0+ at 5\",\"item0++\"]" ∧
      (counting.resolveValue (.array [.string "$title", .string "$name"])).1 = .ok w ∧
      ({ counting with limit := 5 }.resolveValue (.array [.string "$title", .string "$name"])).1 =
        .ok w ∧
      (invocationsIn (journalOf { counting with limit := 5 } (level { counting with limit := 5 })
        (.array [.string "$title", .string "$name"]))).map Prod.fst =
          ["GetVar", "Next", "GetTimestamp", "Next"] := by
  let v : Value := .array [.string "$title", .string "$name"]
  have hlevel : counting.level = Level.tower counting.rules (fun name =>
      (Level.tower counting.rules (counting.rules.fresh 1) 2 0).template [] [.var name]) 2 0 := rfl
  have hrender : (counting.resolveValue v).1.map Value.render =
      .ok "[\"item0+ at 5\",\"item0++\"]" := by
    simp only [resolveValue, hlevel, Level.tower, Rules.fresh, above_eq_parsing]
    decide +kernel
  have hinvoked : (invocationsIn (counting.journalOf counting.level v)).map Prod.fst =
      ["GetVar", "Next", "GetTimestamp", "Next"] := by
    simp only [hlevel, Level.tower, Rules.fresh, above_eq_parsing]
    decide +kernel
  obtain ⟨w, hok, hrender⟩ := map_eq_ok.mp hrender
  have hraise : counting.limit ≤ 5 := by decide
  obtain ⟨hraised, -, hjournal⟩ :=
    (resolveValue_of_le_limit counting ignoresLimit_counting hraise v w).1 hok
  refine ⟨w, hrender, hok, hraised, ?_⟩
  rw [hjournal]
  exact hinvoked

end Context

end Casebook
