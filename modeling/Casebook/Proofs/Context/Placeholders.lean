import Casebook.Context.Evaluation
import Casebook.Proofs.Value.Texts
import Mathlib.Data.Nat.Notation

/-!
# Evaluation by what placeholders give

A value is evaluated by evaluating its texts, a text by evaluating the placeholders of its template,
and a placeholder is a variable or a call. `Placeholders` is the part that differs from one way of
evaluating to another: what a variable gives, and what a call gives. All the rest follows from it
and from sequences, so two ways of evaluating that are related in what their placeholders give are
related in what they make of templates, texts and values (`rel_templateOver`, `rel_stringOver`,
`rel_valueOver`), as soon as sequences keep the relation. One of them is that of the levels
(`Level.templateOver_eq`, `Level.valueOver_eq`), so levels too are compared by their placeholders.

What all parts of an evaluation keep holds of evaluation altogether: `Pervades` names the parts, and
`Pervades.tower` and `Pervades.fresh` go through the levels and the fresh readings. One such property
is what an evaluation does to the store, as far as its journal tells (`Noting`): it follows from what
single runs of verbs do (`Records`).
-/

namespace Casebook

open Computation

/-- What the placeholders of a template give, in computations on some state. -/
structure Placeholders (σ : Type) where
  var : String → ExceptT Error (StateM σ) Value
  call : Call → ExceptT Error (StateM σ) Value

/-- A result that is there already, in any state. -/
def given {σ α : Type} (result : Except Error α) : ExceptT Error (StateM σ) α :=
  ExceptT.mk (pure result)

namespace Placeholders

variable {σ : Type} (p : Placeholders σ)

/-- The value of a piece of a template. -/
def segment : Segment → ExceptT Error (StateM σ) Value
  | .text s => return .string s
  | .var name => p.var name
  | .call c => p.call c

/-- The text of pieces, from left to right. -/
def text : List Segment → ExceptT Error (StateM σ) String
  | [] => return ""
  | s :: rest => do
    let v ← p.segment s
    let more ← text rest
    return v.render ++ more

/-- The value of a template. -/
def template (segments : List Segment) : ExceptT Error (StateM σ) Value := do
  match (Template.mk segments).solePlaceholder? with
  | some s => p.segment s
  | none => return .string (← p.text segments)

/-- The value of a text that may hold placeholders, nested at most as deep as a limit. -/
def string (limit : ℕ) (text : String) : ExceptT Error (StateM σ) Value := do
  if text.contains '$' then
    let t ← given (Template.parse limit text)
    p.template t.segments
  else return .string text

/-- The value with its texts and keys evaluated. -/
def value (limit : ℕ) (v : Value) : ExceptT Error (StateM σ) Value :=
  v.mapTexts (p.string limit) fun key => do return (← p.string limit key).render

/-- The values of arguments, on top of those already evaluated. -/
def arguments : List Argument → Arguments → ExceptT Error (StateM σ) Arguments
  | [], done => return done
  | a :: rest, done => do
    let v ←
      match a with
      | .literal _ v _ => pure v
      | .quoted _ _ body _ => do
        let v ← p.template body
        pure (Value.string v.render)
      | .expr _ body _ => p.template body
    arguments rest (done.add a.key v)

end Placeholders

/-! ## Related placeholders -/

section Related

variable {σ : Type} {p : Placeholders σ} {rules : Rules} {fresh : String → Evaluation Value}
  {depth : ℕ} {below : Option (Unit → Level)} {expanding : List String}
  {R : (α : Type) → Evaluation α → ExceptT Error (StateM σ) α → Prop}

/-- Arguments are related as soon as the templates in them are. -/
theorem rel_argumentsAt (hR : Value.IsSequential R) {level : Level}
    (htemplate : ∀ segments, R Value (level.template expanding segments) (p.template segments))
    (args : List Argument) (done : Arguments) :
    R Arguments (Level.argumentsAt level expanding args done) (p.arguments args done) := by
  induction args generalizing done with
  | nil => exact hR.pure done
  | cons a rest ih =>
    cases a with
    | literal key v raw => exact hR.bind (hR.pure v) fun v => ih (done.add key v)
    | quoted key q body raw =>
      exact hR.bind (htemplate body) fun v => hR.bind (hR.pure (Value.string v.render)) fun v =>
        ih (done.add key v)
    | expr key body raw => exact hR.bind (htemplate body) fun v => ih (done.add key v)

variable (hR : Value.IsSequential R)
  (hvar : ∀ name, R Value (Level.variableOver rules depth below expanding name) (p.var name))
  (hcall : ∀ c, R Value (Level.callOver rules fresh depth below expanding c) (p.call c))

include hR hvar hcall

theorem rel_segmentOver (s : Segment) :
    R Value (Level.segmentOver rules fresh depth below expanding s) (p.segment s) := by
  cases s with
  | text s => exact hR.pure _
  | var name => exact hvar name
  | call c => exact hcall c

theorem rel_textOver (segments : List Segment) :
    R String (Level.textOver rules fresh depth below expanding segments) (p.text segments) := by
  induction segments with
  | nil => exact hR.pure _
  | cons s rest ih =>
    exact hR.bind (rel_segmentOver hR hvar hcall s) fun v => hR.bind ih fun more => hR.pure _

theorem rel_templateOver (segments : List Segment) :
    R Value (Level.templateOver rules fresh depth below expanding segments)
      (p.template segments) := by
  unfold Level.templateOver Placeholders.template
  cases (Template.mk segments).solePlaceholder? with
  | some s => exact rel_segmentOver hR hvar hcall s
  | none => exact hR.bind (rel_textOver hR hvar hcall segments) fun text => hR.pure _

variable (hgiven : ∀ {α : Type} (result : Except Error α),
  R α (Evaluation.lift result) (given result))

include hgiven

theorem rel_stringOver (text : String) :
    R Value (Level.stringOver rules fresh depth below expanding text)
      (p.string rules.limit text) := by
  unfold Level.stringOver Placeholders.string
  split
  · exact hR.bind (hgiven _) fun t => rel_templateOver hR hvar hcall t.segments
  · exact hR.pure _

theorem rel_valueOver (v : Value) :
    R Value (Level.valueOver rules fresh depth below expanding v) (p.value rules.limit v) :=
  Value.rel_mapTexts hR v (fun text _ => rel_stringOver hR hvar hcall hgiven text) fun key _ =>
    hR.bind (rel_stringOver hR hvar hcall hgiven key) fun _ => hR.pure _

end Related

/-! ## Levels as placeholders -/

namespace Level

variable (rules : Rules) (fresh : String → Evaluation Value) (depth : ℕ)
  (below : Option (Unit → Level)) (expanding : List String)

/-- What the placeholders of a template give at a level. -/
def placeholders : Placeholders Session :=
  ⟨variableOver rules depth below expanding, callOver rules fresh depth below expanding⟩

theorem isSequential_eq : Value.IsSequential fun α (m m' : Evaluation α) => m = m' :=
  ⟨fun _ => rfl, fun hm hf => hm ▸ congrArg _ (funext hf)⟩

theorem templateOver_eq (segments : List Segment) :
    templateOver rules fresh depth below expanding segments =
      (placeholders rules fresh depth below expanding).template segments :=
  rel_templateOver isSequential_eq (fun _ => rfl) (fun _ => rfl) segments

theorem valueOver_eq (v : Value) :
    valueOver rules fresh depth below expanding v =
      (placeholders rules fresh depth below expanding).value rules.limit v :=
  rel_valueOver isSequential_eq (fun _ => rfl) (fun _ => rfl) (fun _ => rfl) v

end Level

/-! ## What holds of every evaluation -/

/-- A property of evaluations that sequences keep and that all their parts have. -/
structure Pervades (rules : Rules) (P : (α : Type) → Evaluation α → Prop) : Prop where
  lift : ∀ {α : Type} (result : Except Error α), P α (Evaluation.lift result)
  bind : ∀ {α β : Type} {m : Evaluation α} {f : α → Evaluation β},
    P α m → (∀ a, P β (f a)) → P β (m >>= f)
  /-- The store may be looked at. -/
  read : ∀ {α : Type} {f : Session → Evaluation α},
    (∀ s s', s.store = s'.store → f s = f s') → (∀ s, P α (f s)) → P α (get >>= f)
  opened : ∀ depth expanding, P Unit (Evaluation.note (.opened depth expanding))
  closed : P Unit (Evaluation.note .closed)
  outcome : ∀ {α : Type} {m : Evaluation α}, P α m → P (Except Error α) m.outcome
  invoke : ∀ {reading : String → Evaluation Value}, (∀ name, P Value (reading name)) →
    ∀ name args, P Value (rules.invoke reading name args)

namespace Pervades

variable {rules : Rules} {P : (α : Type) → Evaluation α → Prop} (h : Pervades rules P)
  {reading : String → Evaluation Value} {depth : ℕ} {below : Option (Unit → Level)}

include h

theorem isSequential : Value.IsSequential fun α (m : Evaluation α) (_ : Evaluation α) => P α m :=
  ⟨fun a => h.lift (.ok a), h.bind⟩

theorem descend {α : Type} {expanding : List String} {work : Level → Evaluation α}
    (hwork : ∀ level, below = some level → P α (work (level ()))) :
    P α (Level.descend rules depth below expanding work) := by
  cases below with
  | none => exact h.lift (.error _)
  | some level =>
    exact h.bind (h.opened _ _) fun _ => h.bind (h.outcome (hwork level rfl)) fun result =>
      h.bind h.closed fun _ => h.lift result

/-- All that a level does has a property. -/
structure OfLevel (P : (α : Type) → Evaluation α → Prop) (level : Level) : Prop where
  template : ∀ expanding segments, P Value (level.template expanding segments)
  value : ∀ expanding v, P Value (level.value expanding v)

/-- What the level below does has the property, if there is one. -/
def OfBelow (P : (α : Type) → Evaluation α → Prop) (below : Option (Unit → Level)) : Prop :=
  ∀ level, below = some level → OfLevel P (level ())

omit h in
theorem ofBelow_none : OfBelow P none :=
  nofun

theorem variableOver (hbelow : OfBelow P below) (expanding : List String) (name : String) :
    P Value (Level.variableOver rules depth below expanding name) := by
  refine h.read (fun s s' hs => by rw [hs]) fun s => ?_
  split
  · exact h.lift (.error _)
  · split
    · exact h.lift (.ok _)
    · split
      · exact h.lift (.error _)
      · exact h.descend fun level hlevel => (hbelow level hlevel).value _ _

theorem callOver (hreading : ∀ name, P Value (reading name)) (hbelow : OfBelow P below)
    (expanding : List String) (c : Call) :
    P Value (Level.callOver rules reading depth below expanding c) := by
  unfold Level.callOver
  split
  · exact h.lift (.error _)
  · refine h.descend fun level hlevel => ?_
    -- The property is of evaluations alone, so it does not matter what they are set beside.
    exact h.bind (rel_argumentsAt (p := ⟨fun _ => given (.ok .null), fun _ => given (.ok .null)⟩)
      h.isSequential ((hbelow level hlevel).template expanding) c.args Arguments.none) fun args =>
        h.invoke hreading c.name args

theorem above (hreading : ∀ name, P Value (reading name)) (hbelow : OfBelow P below) :
    OfLevel P (Level.above rules reading depth below) where
  template expanding :=
    rel_templateOver (p := Level.placeholders rules reading depth below expanding)
      h.isSequential (h.variableOver hbelow expanding) (h.callOver hreading hbelow expanding)
  value expanding :=
    rel_valueOver (p := Level.placeholders rules reading depth below expanding)
      h.isSequential (h.variableOver hbelow expanding) (h.callOver hreading hbelow expanding) h.lift

/-- The induction is on the number of levels that may yet be opened. -/
theorem tower (hreading : ∀ name, P Value (reading name)) (room depth : ℕ) :
    OfLevel P (Level.tower rules reading room depth) := by
  induction room generalizing depth with
  | zero => exact h.above hreading ofBelow_none
  | succ room ih =>
    refine h.above hreading fun level hlevel => ?_
    cases hlevel
    exact ih (depth + 1)

/-- The induction is on the number of fresh readings that may be stacked. -/
theorem fresh (n : ℕ) (name : String) : P Value (rules.fresh n name) := by
  induction n generalizing name with
  | zero => exact (h.above (fun _ => h.lift (.error _)) ofBelow_none).template [] [.var name]
  | succ n ih => exact (h.tower ih rules.limit 0).template [] [.var name]

end Pervades

/-! ## What evaluations do to the store -/

/-- What an evaluation notes is added to the journal, and the store that it leaves is related to the
one that it finds by what it noted, the latest first. -/
def Noting (R : List Event → Store → Store → Prop) (α : Type) (m : Evaluation α) : Prop :=
  ∀ s, ∃ noted, (exec m s).2.journal = noted ++ s.journal ∧ R noted s.store (exec m s).2.store

/-- A relation of stores holds of runs of verbs, and of what is noted one after another. -/
structure Records (rules : Rules) (R : List Event → Store → Store → Prop) : Prop where
  nil : ∀ store, R [] store store
  append : ∀ {noted more store store₁ store₂}, R noted store store₁ → R more store₁ store₂ →
    R (more ++ noted) store store₂
  opened : ∀ depth expanding store, R [.opened depth expanding] store store
  closed : ∀ store, R [.closed] store store
  direct : ∀ {name verb run}, rules.verbs.get? name = some verb → verb.body = .direct run →
    ∀ args store, R [.invoked name args] store (exec (run args) store).2
  /-- What a verb reads first is noted behind the run of the verb. -/
  onVariable : ∀ {name verb run}, rules.verbs.get? name = some verb → verb.body = .onVariable run →
    ∀ args found {noted store store'}, R noted store store' →
      R (noted ++ [.invoked name args]) store (exec (run args found) store').2

section Records

variable {rules : Rules} {R : List Event → Store → Store → Prop} (h : Records rules R)
  {α β : Type}

include h

theorem noting_lift (result : Except Error α) : Noting R α (Evaluation.lift result) :=
  fun s => ⟨[], rfl, h.nil s.store⟩

theorem Noting.bind {m : Evaluation α} {f : α → Evaluation β} (hm : Noting R α m)
    (hf : ∀ a, Noting R β (f a)) : Noting R β (m >>= f) := by
  intro s
  obtain ⟨noted, hjournal, hstore⟩ := hm s
  rw [exec_bind]
  rcases hexec : exec m s with ⟨e | a, s₁⟩ <;> rw [hexec] at hjournal hstore
  · exact ⟨noted, hjournal, hstore⟩
  · obtain ⟨more, hmore, hstore₁⟩ := hf a s₁
    refine ⟨more ++ noted, ?_, h.append hstore hstore₁⟩
    rw [hmore, hjournal, List.append_assoc]

theorem noting_invoke {reading : String → Evaluation Value}
    (hreading : ∀ name, Noting R Value (reading name)) (name : String) (args : Arguments) :
    Noting R Value (rules.invoke reading name args) := by
  unfold Rules.invoke
  split
  · exact noting_lift h (.error _)
  · next verb hverb =>
    refine (noting_lift h _).bind h fun args => ?_
    split
    · next run hbody =>
      exact fun s => ⟨[.invoked name args], rfl, h.direct hverb hbody args s.store⟩
    · next run hbody =>
      -- The reading begins where the run of the verb was noted already.
      intro s
      obtain ⟨noted, hjournal, hstore⟩ :=
        hreading (args.text 0) { s with journal := .invoked name args :: s.journal }
      refine ⟨noted ++ [.invoked name args], ?_, h.onVariable hverb hbody args _ hstore⟩
      rw [List.append_assoc]
      exact hjournal

/-- What runs of verbs do to the store, in the order in which they are noted, is all that an
evaluation does to it. -/
theorem pervades_noting : Pervades rules (Noting R) where
  lift := noting_lift h
  bind hm hf := hm.bind h hf
  read _ hf := by
    intro s
    rw [exec_bind_of_ok (exec_get s)]
    exact hf s s
  opened depth expanding := fun s =>
    ⟨[.opened depth expanding], rfl, h.opened depth expanding s.store⟩
  closed := fun s => ⟨[.closed], rfl, h.closed s.store⟩
  outcome hm := fun s => hm s
  invoke := noting_invoke h

end Records

end Casebook
