import Casebook.Proofs.Context.Nesting
import Casebook.Proofs.Context.Placeholders

/-!
# Evaluators that count

An evaluator with a state of its own keeps the number of levels that it has open and the names of
the variables that it is expanding. It counts up and puts a name on top where it goes down into a
level, and takes both back by hand where it comes out; it has to do so whatever comes of the work.
Main statement: an evaluator ends every evaluation with the counts it began it with, be it with a
value or with an error of any kind, and in between it does what the level does in which so many are
open. So an evaluator that goes on after errors gives to one value after another what a fresh one
gives to each.

Values and variables lead to one another without end, so the recursion of the evaluator is unfolded
some number of times, over an evaluator about which nothing is said. Its own limit stops it before
it gets there.
-/

namespace Casebook

open Computation

/-- An evaluator in the middle of its work. -/
structure Evaluator where
  session : Session
  /-- How many levels are open. -/
  depth : ℕ
  /-- The variables that are being expanded, outermost first. -/
  expanding : List String

/-- A computation of an evaluator; the state stays as an error leaves it. -/
abbrev Counting (α : Type) := ExceptT Error (StateM Evaluator) α

namespace Evaluator

variable {α : Type}

/-- An evaluator that has not begun. -/
def fresh (store : Store) : Evaluator :=
  ⟨⟨store, []⟩, 0, []⟩

/-- Work in the session. -/
def inSession (m : Evaluation α) : Counting α :=
  ExceptT.mk fun r =>
    let (result, session) := m.run.run r.session
    (result, { r with session })

/-- The outcome of a computation, be it a value or an error. -/
def outcome (m : Counting α) : Counting (Except Error α) :=
  ExceptT.mk fun r =>
    let (result, r) := m.run.run r
    (.ok result, r)

section Unfolding

variable (rules : Rules) (reading : String → Evaluation Value)

/-- Count a level that is opened. The count is taken back if that is one too many. -/
def enter : Counting Unit := do
  modify fun r => { r with depth := r.depth + 1 }
  if rules.limit < (← get).depth then
    modify fun r => { r with depth := r.depth - 1 }
    throw (.recursionLimit rules.limit)

/-- Count a level that is closed. -/
def leave : Counting Unit :=
  modify fun r => { r with depth := r.depth - 1 }

/-- Put a name on top of those of the variables that are being expanded. -/
def push (name : String) : Counting Unit :=
  modify fun r => { r with expanding := r.expanding ++ [name] }

/-- Take off the name on top. -/
def pop : Counting Unit :=
  modify fun r => { r with expanding := r.expanding.dropLast }

/-- Note that a level was opened. -/
def noteOpened : Counting Unit := do
  let r ← get
  inSession (Evaluation.note (.opened r.depth r.expanding))

/-- Note that a level was closed. -/
def noteClosed : Counting Unit :=
  inSession (Evaluation.note .closed)

variable (deeper : Placeholders Evaluator)

/-- The value of a variable; a deferred one is expanded a level deeper. -/
def variableOver (name : String) : Counting Value := do
  let r ← get
  match r.session.store.find? name with
  | none => throw (.unresolvedVariable name)
  | some binding =>
    if !binding.deferred then return binding.value
    if name ∈ r.expanding then
      throw (.cyclicVariable (Text.join " -> " (r.expanding ++ [name])))
    enter rules
    push name
    noteOpened
    let result ← outcome (deeper.value rules.limit binding.value)
    noteClosed
    pop
    leave
    given result

/-- The result of a call, whose arguments are evaluated a level deeper. -/
def callOver (c : Call) : Counting Value := do
  if !rules.verbs.contains c.name then throw (.unknownFunction c.name)
  enter rules
  noteOpened
  let result ← outcome do
    let args ← deeper.arguments c.args Arguments.none
    inSession (rules.invoke reading c.name args)
  noteClosed
  leave
  given result

/-- What placeholders give to an evaluator, by what they give it deeper. -/
def unfold : Placeholders Evaluator where
  var := variableOver rules deeper
  call := callOver rules reading deeper

end Unfolding

/-- What placeholders give to an evaluator whose recursion is unfolded often enough, and some more
times, over one about which nothing is said. -/
def placeholders (rules : Rules) (reading : String → Evaluation Value) (more : ℕ)
    (bottom : Placeholders Evaluator) : Placeholders Evaluator :=
  (unfold rules reading)^[rules.limit + 1 + more] bottom

/-- The outcomes of values that one evaluator evaluates one after another, going on after errors. -/
def resolveEach (rules : Rules) (more : ℕ) (bottom : Placeholders Evaluator) :
    List Value → Counting (List (Except Error Value))
  | [] => return []
  | v :: rest => do
    let readings := (← get).session.store.deferredNames.length
    let result ← outcome
      ((placeholders rules (rules.fresh readings) more bottom).value rules.limit v)
    let results ← resolveEach rules more bottom rest
    return result :: results

/-! ## Side by side with a level -/

/-- With these counts an evaluator does what an evaluation does, and has the same counts again. -/
def Follows (depth : ℕ) (expanding : List String) (α : Type) (m : Evaluation α)
    (m' : Counting α) : Prop :=
  ∀ session, exec m' ⟨session, depth, expanding⟩ =
    ((exec m session).1, ⟨(exec m session).2, depth, expanding⟩)

section Follows

variable {depth : ℕ} {expanding : List String} {β : Type}

theorem follows_given (result : Except Error α) :
    Follows depth expanding α (Evaluation.lift result) (given result) :=
  fun _ => rfl

theorem follows_inSession (m : Evaluation α) : Follows depth expanding α m (inSession m) :=
  fun _ => rfl

theorem follows_bind {m : Evaluation α} {m' : Counting α} {f : α → Evaluation β}
    {f' : α → Counting β} (hm : Follows depth expanding α m m')
    (hf : ∀ a, Follows depth expanding β (f a) (f' a)) :
    Follows depth expanding β (m >>= f) (m' >>= f') := by
  intro session
  rw [exec_bind, exec_bind, hm]
  rcases hexec : exec m session with ⟨e | a, session₁⟩
  · rfl
  · exact hf a session₁

theorem isSequential_follows : Value.IsSequential (Follows depth expanding) :=
  ⟨fun a => follows_given (.ok a), follows_bind⟩

/-! ### Going down into a level -/

section Descent

variable {rules : Rules} {reading : String → Evaluation Value} {below : Option (Unit → Level)}

theorem exec_enter_of_lt {r : Evaluator} (h : r.depth < rules.limit) :
    exec (enter rules) r = (.ok (), { r with depth := r.depth + 1 }) := by
  have hcounted : exec (modify fun r => { r with depth := r.depth + 1 } : Counting Unit) r =
      (.ok (), { r with depth := r.depth + 1 }) := rfl
  rw [enter, exec_bind_of_ok hcounted, exec_bind_of_ok (exec_get _), if_neg (Nat.not_lt.mpr h)]
  rfl

/-- The count is taken back where there is no room for one more level. -/
theorem exec_enter_of_le {r : Evaluator} (h : rules.limit ≤ r.depth) :
    exec (enter rules) r = (.error (.recursionLimit rules.limit), r) := by
  have hcounted : exec (modify fun r => { r with depth := r.depth + 1 } : Counting Unit) r =
      (.ok (), { r with depth := r.depth + 1 }) := rfl
  rw [enter, exec_bind_of_ok hcounted, exec_bind_of_ok (exec_get _),
    if_pos (Nat.lt_succ_of_le h)]
  rfl

/-- A counted level is closed with what the work in it left, less one level and one name. -/
theorem exec_expansion (work : Counting Value) (name : String) (r : Evaluator) :
    exec (do
      push name
      noteOpened
      let result ← outcome work
      noteClosed
      pop
      leave
      given result) r =
        let inner := exec work ⟨{ r.session with
          journal := .opened r.depth (r.expanding ++ [name]) :: r.session.journal },
          r.depth, r.expanding ++ [name]⟩
        (inner.1, ⟨{ inner.2.session with journal := .closed :: inner.2.session.journal },
          inner.2.depth - 1, inner.2.expanding.dropLast⟩) :=
  rfl

theorem exec_invocation (work : Counting Value) (r : Evaluator) :
    exec (do
      noteOpened
      let result ← outcome work
      noteClosed
      leave
      given result) r =
        let inner := exec work ⟨{ r.session with
          journal := .opened r.depth r.expanding :: r.session.journal }, r.depth, r.expanding⟩
        (inner.1, ⟨{ inner.2.session with journal := .closed :: inner.2.session.journal },
          inner.2.depth - 1, inner.2.expanding⟩) :=
  rfl

/-- There is a level below if there is room for it, and deeper placeholders do there what an
evaluator does. -/
structure Below (rules : Rules) (depth : ℕ) (deeper : Placeholders Evaluator)
    (below : Option (Unit → Level)) : Prop where
  none : below = none → rules.limit ≤ depth
  some : ∀ level, below = some level → depth < rules.limit ∧ ∀ expanding,
    (∀ v, Follows (depth + 1) expanding Value ((level ()).value expanding v)
      (deeper.value rules.limit v)) ∧
    ∀ segments, Follows (depth + 1) expanding Value ((level ()).template expanding segments)
      (deeper.template segments)

variable {deeper : Placeholders Evaluator} (hbelow : Below rules depth deeper below)

include hbelow

/-- Going down into a level fails where there is none; else the counts are taken back in the end. -/
theorem follows_descend {inner : List String} {work : Level → Evaluation α} {rest : Counting α}
    (hrest : ∀ level, below = some level → ∀ session,
      exec rest ⟨session, depth + 1, expanding⟩ =
        ((exec (Level.descend rules depth (some level) inner work) session).1,
          ⟨(exec (Level.descend rules depth (some level) inner work) session).2, depth,
            expanding⟩)) :
    Follows depth expanding α (Level.descend rules depth below inner work)
      (enter rules >>= fun _ => rest) := by
  intro session
  cases hlevel : below with
  | none =>
    rw [exec_bind, exec_enter_of_le (hbelow.none hlevel)]
    rfl
  | some level =>
    rw [exec_bind_of_ok (exec_enter_of_lt (hbelow.some level hlevel).1)]
    exact hrest level hlevel session

theorem follows_variableOver (name : String) :
    Follows depth expanding Value (Level.variableOver rules depth below expanding name)
      (variableOver rules deeper name) := by
  intro session
  cases hfind : session.store.find? name with
  | none =>
    rw [Level.variableOver, variableOver, exec_bind_of_ok (exec_get session),
      exec_bind_of_ok (exec_get _), hfind]
    rfl
  | some binding =>
    obtain ⟨v, _ | _⟩ := binding
    · rw [Level.variableOver, variableOver, exec_bind_of_ok (exec_get session),
        exec_bind_of_ok (exec_get _), hfind]
      rfl
    rw [variableOver, exec_bind_of_ok (exec_get _)]
    dsimp only
    rw [hfind]
    by_cases hmem : name ∈ expanding
    · rw [Level.variableOver, exec_bind_of_ok (exec_get session), hfind]
      simp only [hmem, if_true]
      rfl
    · rw [exec_variableOver_of_deferred hfind hmem]
      simp only [hmem, if_false]
      refine follows_descend hbelow (fun level hlevel session => ?_) session
      have hwork := ((hbelow.some level hlevel).2 (expanding ++ [name])).1 v
        { session with journal := .opened (depth + 1) (expanding ++ [name]) :: session.journal }
      rw [exec_descend]
      refine (exec_expansion _ _ _).trans ?_
      dsimp only
      rw [hwork, List.dropLast_concat]
      rfl

omit hbelow in
/-- The arguments of a known verb are evaluated a level deeper, and the verb is run there. -/
theorem callOver_eq_enter {c : Call} (hknown : rules.verbs.contains c.name = true) :
    callOver rules reading deeper c = (do
      enter rules
      noteOpened
      let result ← outcome do
        let args ← deeper.arguments c.args Arguments.none
        inSession (rules.invoke reading c.name args)
      noteClosed
      leave
      given result) := by
  rw [callOver, hknown]
  rfl

theorem follows_callOver (c : Call) :
    Follows depth expanding Value (Level.callOver rules reading depth below expanding c)
      (callOver rules reading deeper c) := by
  cases hknown : rules.verbs.contains c.name with
  | false =>
    intro session
    rw [Level.callOver, callOver, hknown]
    rfl
  | true =>
    rw [callOver_eq_of_contains hknown, callOver_eq_enter hknown]
    refine follows_descend hbelow fun level hlevel session => ?_
    have htemplate := ((hbelow.some level hlevel).2 expanding).2
    have hwork : Follows (depth + 1) expanding Value (do
        let args ← Level.argumentsAt (level ()) expanding c.args Arguments.none
        rules.invoke reading c.name args) (do
        let args ← deeper.arguments c.args Arguments.none
        inSession (rules.invoke reading c.name args)) :=
      follows_bind (rel_argumentsAt isSequential_follows htemplate c.args Arguments.none)
        fun args => follows_inSession _
    rw [exec_descend]
    refine (exec_invocation _ _).trans ?_
    dsimp only
    rw [hwork]
    rfl

/-- Over deeper placeholders that do what a level does, an evaluator does what the level above it
does. -/
theorem follows_above :
    (∀ v, Follows depth expanding Value ((Level.above rules reading depth below).value expanding v)
      ((unfold rules reading deeper).value rules.limit v)) ∧
    ∀ segments, Follows depth expanding Value
      ((Level.above rules reading depth below).template expanding segments)
      ((unfold rules reading deeper).template segments) :=
  ⟨rel_valueOver isSequential_follows (follows_variableOver hbelow) (follows_callOver hbelow)
    follows_given, rel_templateOver isSequential_follows (follows_variableOver hbelow)
    (follows_callOver hbelow)⟩

end Descent

/-- An evaluator that is unfolded more often than there is room for levels does what a tower of
levels does. The induction is on how often it is unfolded. -/
theorem follows_tower {rules : Rules} {reading : String → Evaluation Value}
    (bottom : Placeholders Evaluator) {n room : ℕ} (hroom : room = rules.limit - depth)
    (hn : room < n) (expanding : List String) :
    (∀ v, Follows depth expanding Value
      ((Level.tower rules reading room depth).value expanding v)
      (((unfold rules reading)^[n] bottom).value rules.limit v)) ∧
    ∀ segments, Follows depth expanding Value
      ((Level.tower rules reading room depth).template expanding segments)
      (((unfold rules reading)^[n] bottom).template segments) := by
  induction n generalizing room depth expanding with
  | zero => exact absurd hn (Nat.not_lt_zero room)
  | succ n ih =>
    rw [Function.iterate_succ_apply']
    cases room with
    | zero => exact follows_above ⟨fun _ => by omega, nofun⟩
    | succ room =>
      refine follows_above ⟨nofun, fun level hlevel => ⟨by omega, ?_⟩⟩
      cases hlevel
      exact ih (by omega) (Nat.lt_of_succ_lt_succ hn)

end Follows

/-! ## The counts in the end -/

/-- An evaluator ends a computation with the counts it began it with, and comes to what an
evaluation comes to. -/
structure Restores (r : Evaluator) (m : Evaluation α) (m' : Counting α) : Prop where
  depth : (exec m' r).2.depth = r.depth
  expanding : (exec m' r).2.expanding = r.expanding
  result : (exec m' r).1 = (exec m r.session).1
  session : (exec m' r).2.session = (exec m r.session).2

theorem Follows.restores {r : Evaluator} {m : Evaluation α} {m' : Counting α}
    (h : Follows r.depth r.expanding α m m') : Restores r m m' := by
  have hexec := h r.session
  constructor
  case depth => exact congrArg (fun x => x.2.depth) hexec
  case expanding => exact congrArg (fun x => x.2.expanding) hexec
  case result => exact congrArg Prod.fst hexec
  case session => exact congrArg (fun x => x.2.session) hexec

/-! ## One value after another -/

theorem looksAt_outcome {m : Evaluation α} (hm : LooksAt Session.store m) :
    LooksAt Session.store m.outcome := by
  intro s s' hs
  obtain ⟨hresult, hstore⟩ := hm s s' hs
  exact ⟨congrArg Except.ok hresult, hstore⟩

theorem looksAt_onStore (action : StoreAction α) :
    LooksAt Session.store (Evaluation.onStore action) := by
  intro s s' hs
  have hexec (s : Session) : exec (Evaluation.onStore action) s =
      ((exec action s.store).1, { s with store := (exec action s.store).2 }) := rfl
  rw [hexec, hexec, hs]
  exact ⟨rfl, rfl⟩

theorem looksAt_lift (result : Except Error α) :
    LooksAt Session.store (Evaluation.lift result) :=
  fun _ _ hs => ⟨rfl, hs⟩

theorem looksAt_note (e : Event) : LooksAt Session.store (Evaluation.note e) :=
  fun _ _ hs => ⟨rfl, hs⟩

/-- What an evaluation does depends on the store, not on what was noted before. -/
theorem pervades_looksAt (rules : Rules) :
    Pervades rules fun _ m => LooksAt Session.store m where
  lift := looksAt_lift
  bind := LooksAt.bind
  read hf h := by
    intro s s' hs
    rw [exec_bind_of_ok (exec_get s), exec_bind_of_ok (exec_get s'), hf s s' hs]
    exact h s' s s' hs
  opened _ _ := looksAt_note _
  closed := looksAt_note _
  outcome := looksAt_outcome
  invoke hreading name args := by
    unfold Rules.invoke
    split
    · exact looksAt_lift (.error _)
    · refine (looksAt_lift _).bind fun args => (looksAt_note _).bind fun _ => ?_
      split
      · exact looksAt_onStore _
      · exact (looksAt_outcome (hreading _)).bind fun found => looksAt_onStore _

section Contexts

variable (c : Context) (more : ℕ) (bottom : Placeholders Evaluator)

/-- A fresh evaluator does what the highest level of a context does. -/
theorem follows_level (v : Value) :
    Follows 0 [] Value (c.level.value [] v)
      ((placeholders c.rules (c.rules.fresh c.readings) more bottom).value c.rules.limit v) := by
  have hroom : c.rules.limit < c.rules.limit + 1 + more := by omega
  exact (follows_tower bottom rfl hroom []).1 v

/-- What was noted before makes no difference to a value. -/
theorem exec_level_value (v : Value) (journal : List Event) :
    ∃ journal', exec (c.level.value [] v) ⟨c.store, journal⟩ =
      ((c.resolveValue v).1, ⟨(c.resolveValue v).2.store, journal'⟩) := by
  have hlooks := (pervades_looksAt c.rules).tower
    ((pervades_looksAt c.rules).fresh c.readings) c.rules.limit 0
  obtain ⟨hresult, hstore⟩ := hlooks.value [] v ⟨c.store, journal⟩ ⟨c.store, []⟩ rfl
  refine ⟨(exec (c.level.value [] v) ⟨c.store, journal⟩).2.journal, Prod.ext hresult ?_⟩
  exact congrArg (Session.mk · _) hstore

theorem exec_outcome (m : Counting α) (r : Evaluator) :
    exec (outcome m) r = (.ok (exec m r).1, (exec m r).2) :=
  rfl

/-- One evaluator gives to values one after another what a fresh one gives to each. The induction is
on the values; whatever was noted for one makes no difference to the next. -/
theorem exists_exec_resolveEach (values : List Value) (journal : List Event) :
    ∃ journal', exec (resolveEach c.rules more bottom values) ⟨⟨c.store, journal⟩, 0, []⟩ =
      (.ok (c.resolveAll values).1, ⟨⟨(c.resolveAll values).2.store, journal'⟩, 0, []⟩) := by
  induction values generalizing c journal with
  | nil => exact ⟨journal, rfl⟩
  | cons v rest ih =>
    obtain ⟨journal₁, hlevel⟩ := exec_level_value c v journal
    have hvalue := follows_level c more bottom v ⟨c.store, journal⟩
    rw [hlevel] at hvalue
    have houtcome := exec_outcome ((placeholders c.rules (c.rules.fresh c.readings) more
      bottom).value c.rules.limit v) ⟨⟨c.store, journal⟩, 0, []⟩
    rw [hvalue] at houtcome
    obtain ⟨journal', hrest⟩ := ih (c.resolveValue v).2 journal₁
    refine ⟨journal', ?_⟩
    rw [resolveEach, exec_bind_of_ok (exec_get _)]
    refine (exec_bind_of_ok houtcome).trans ?_
    refine (exec_bind_of_ok hrest).trans ?_
    rfl

end Contexts

/-- Whatever an evaluator has open, and whatever comes of it, an evaluation of a value, a text, a
template, a call or a variable leaves it the counts that it had, and gives what the level gives in
which so many are open. So one evaluator that evaluates values one after another and goes on after
errors gives the outcomes that a fresh evaluator gives to each, and leaves the same store. -/
theorem restores_counts (more : ℕ) (bottom : Placeholders Evaluator) :
    (∀ (rules : Rules) (reading : String → Evaluation Value) (r : Evaluator),
      let p := placeholders rules reading more bottom
      let level := Level.tower rules reading (rules.limit - r.depth) r.depth
      (∀ v, Restores r (level.value r.expanding v) (p.value rules.limit v)) ∧
        (∀ text, Restores r (level.value r.expanding (.string text))
          (p.string rules.limit text)) ∧
        (∀ t : Template, Restores r (level.template r.expanding t.segments)
          (p.template t.segments)) ∧
        (∀ c, Restores r (level.template r.expanding [.call c]) (p.call c)) ∧
        ∀ name, Restores r (level.template r.expanding [.var name]) (p.var name)) ∧
      ∀ (c : Context) (values : List Value),
        let run := exec (resolveEach c.rules more bottom values) (fresh c.store)
        run.1 = .ok (c.resolveAll values).1 ∧
          run.2.session.store = (c.resolveAll values).2.store := by
  constructor
  · intro rules reading r p level
    have hroom : rules.limit - r.depth < rules.limit + 1 + more := by omega
    obtain ⟨hvalue, htemplate⟩ : (∀ v, Follows r.depth r.expanding Value
        (level.value r.expanding v) (p.value rules.limit v)) ∧
        ∀ segments, Follows r.depth r.expanding Value (level.template r.expanding segments)
          (p.template segments) := follows_tower bottom rfl hroom r.expanding
    exact ⟨fun v => (hvalue v).restores, fun text => (hvalue (.string text)).restores,
      fun t => (htemplate t.segments).restores, fun c => (htemplate [.call c]).restores,
      fun name => (htemplate [.var name]).restores⟩
  · intro c values run
    obtain ⟨journal, hrun⟩ := exists_exec_resolveEach c more bottom values []
    exact ⟨congrArg Prod.fst hrun, congrArg (fun x => x.2.session.store) hrun⟩

end Evaluator

end Casebook
