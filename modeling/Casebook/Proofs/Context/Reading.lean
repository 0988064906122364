import Casebook.Proofs.Template.PlainText
import Casebook.Proofs.Value.Texts

/-!
# Reading variables without calls

As long as no text holds a call, reading a variable only looks at the store. `expand` is the value
of a piece, a template or a value by those of the variables; `Context.reading` reads a variable by
it, in as many levels as there is room for. `gives_template_tower` says that the levels of
evaluation do the same: they come to the result of `reading` and leave the store as it is.
-/

namespace Casebook

open Computation

/-! ## Expansion by the values of the variables -/

section Expansion

variable (read : String → Except Error Value)

/-- The value of a piece by the values of the variables, where no verb is known. -/
def Segment.expand : Segment → Except Error Value
  | .text s => return .string s
  | .var name => read name
  | .call c => throw (.unknownFunction c.name)

/-- The text of pieces by the values of the variables, from left to right. -/
def Segment.expandAll : List Segment → Except Error String
  | [] => return ""
  | s :: rest => do
    let v ← s.expand read
    let more ← expandAll rest
    return v.render ++ more

/-- The value of a template by the values of the variables. -/
def Template.expand (t : Template) : Except Error Value :=
  match t.solePlaceholder? with
  | some s => s.expand read
  | none => do return .string (← Segment.expandAll read t.segments)

variable (limit : ℕ)

/-- The value of a text by the values of the variables. -/
def Template.expandText (text : String) : Except Error Value := do
  (← Template.parse limit text).expand read

/-- The value with its texts and keys expanded by the values of the variables. -/
def Value.expand (v : Value) : Except Error Value :=
  v.mapTexts (Template.expandText read limit) fun key => do
    return (← Template.expandText read limit key).render

end Expansion

/-- Whether a piece is a call. -/
def Segment.isCall : Segment → Bool
  | call _ => true
  | _ => false

/-- Whether a template holds a call. -/
def Template.hasCall (t : Template) : Bool :=
  t.segments.any Segment.isCall

theorem Template.segments_of_solePlaceholder? {t : Template} {s : Segment}
    (h : t.solePlaceholder? = some s) : t.segments = [s] := by
  unfold solePlaceholder? at h
  split at h
  · next heq => rw [heq, Option.some.inj h]
  · next heq => rw [heq, Option.some.inj h]
  · cases h

/-! ### The variables that are read -/

section Reads

variable {read read' : String → Except Error Value} {limit : ℕ}

theorem Segment.expand_congr {s : Segment} (h : ∀ y ∈ s.references, read y = read' y) :
    s.expand read = s.expand read' := by
  cases s with
  | text s => rfl
  | var name => exact h name List.mem_cons_self
  | call c => rfl

theorem Segment.expandAll_congr {segments : List Segment}
    (h : ∀ y ∈ referencesOfSegments segments, read y = read' y) :
    expandAll read segments = expandAll read' segments := by
  induction segments with
  | nil => rfl
  | cons s rest ih =>
    obtain ⟨hs, hrest⟩ := List.forall_mem_append.mp h
    rw [expandAll, expandAll, expand_congr hs, ih hrest]

theorem Template.expand_congr {t : Template} (h : ∀ y ∈ t.references, read y = read' y) :
    t.expand read = t.expand read' := by
  unfold expand
  split
  · next s hsole =>
    refine Segment.expand_congr fun y hy => h y ?_
    rw [references, segments_of_solePlaceholder? hsole]
    exact List.mem_append_left _ hy
  · rw [Segment.expandAll_congr h]

/-- Only the variables that its texts refer to matter to the expansion of a value. -/
theorem Value.expand_congr {v : Value}
    (h : ∀ text ∈ v.texts, ∀ t, Template.parse limit text = .ok t →
      ∀ y ∈ t.references, read y = read' y) : v.expand read limit = v.expand read' limit := by
  have htext : ∀ text ∈ v.texts,
      Template.expandText read limit text = Template.expandText read' limit text := by
    intro text hmem
    unfold Template.expandText
    cases hparse : Template.parse limit text with
    | error e => rfl
    | ok t => exact Template.expand_congr (h text hmem t hparse)
  refine rel_mapTexts (R := fun _ x y => x = y) ⟨fun _ => rfl, ?_⟩ v htext fun key hkey => ?_
  · rintro α β x _ f g rfl hfg
    rw [funext hfg]
  · rw [htext key hkey]

theorem Segment.exists_expand_iff {s : Segment} (hcall : s.isCall = false) :
    (∃ v, s.expand read = .ok v) ↔ ∀ y ∈ s.references, ∃ v, read y = .ok v := by
  cases s with
  | text s => simp [expand, references]
  | var name => simp [expand, references]
  | call c => cases hcall

theorem Segment.exists_expandAll_iff {segments : List Segment}
    (hcall : segments.any isCall = false) :
    (∃ text, expandAll read segments = .ok text) ↔
      ∀ y ∈ referencesOfSegments segments, ∃ v, read y = .ok v := by
  induction segments with
  | nil => simp [expandAll, referencesOfSegments]
  | cons s rest ih =>
    rw [List.any_cons, Bool.or_eq_false_iff] at hcall
    have hrest (v : Value) :
        (∃ text, (expandAll read rest >>= fun more => pure (v.render ++ more)) = .ok text) ↔
          ∀ y ∈ referencesOfSegments rest, ∃ v, read y = .ok v := by
      rw [exists_bind_pure_iff]
      exact ih hcall.2
    rw [expandAll, exists_bind_iff hrest, exists_expand_iff hcall.1, referencesOfSegments,
      List.forall_mem_append]

/-- A template without calls has a value if all variables it refers to have one. -/
theorem Template.exists_expand_iff {t : Template} (hcall : t.hasCall = false) :
    (∃ v, t.expand read = .ok v) ↔ ∀ y ∈ t.references, ∃ v, read y = .ok v := by
  unfold expand
  split
  · next s hsole =>
    have hsegments := segments_of_solePlaceholder? hsole
    rw [hasCall, hsegments, List.any_cons, Bool.or_eq_false_iff] at hcall
    rw [Segment.exists_expand_iff hcall.1, references, hsegments, Segment.referencesOfSegments,
      Segment.referencesOfSegments, List.append_nil]
  · rw [exists_bind_pure_iff]
    exact Segment.exists_expandAll_iff hcall

/-- A value without calls has an expansion if all its texts are templates, and all variables these
refer to have a value. -/
theorem Value.exists_expand_iff {v : Value}
    (hcall : ∀ text ∈ v.texts, ∀ t, Template.parse limit text = .ok t → t.hasCall = false) :
    (∃ w, v.expand read limit = .ok w) ↔ ∀ text ∈ v.texts,
      ∃ t, Template.parse limit text = .ok t ∧ ∀ y ∈ t.references, ∃ w, read y = .ok w := by
  have hkey (key : String) :
      (∃ s, (do return (← Template.expandText read limit key).render) = Except.ok (ε := Error) s) ↔
        ∃ w, Template.expandText read limit key = .ok w :=
    exists_bind_pure_iff
  rw [expand, exists_mapTexts_iff hkey]
  refine forall₂_congr fun text hmem => ?_
  rw [Template.expandText]
  cases hparse : Template.parse limit text with
  | error e => simp [bind, Except.bind]
  | ok t =>
    refine (Template.exists_expand_iff (hcall text hmem t hparse)).trans ?_
    exact ⟨fun h => ⟨t, rfl, h⟩, fun ⟨t', ht, h⟩ => Except.ok.inj ht ▸ h⟩

end Reads

/-! ## Evaluations that leave the store -/

/-- From a store an evaluation comes to a result and leaves the store as it is. -/
def Gives (store : Store) {α : Type} (m : Evaluation α) (result : Except Error α) : Prop :=
  ∀ session : Session, session.store = store →
    (exec m session).1 = result ∧ (exec m session).2.store = store

section Gives

variable {store : Store} {α β : Type} {m : Evaluation α} {result : Except Error α}

theorem gives_pure (a : α) : Gives store (pure a) (.ok a) :=
  fun _ hs => ⟨rfl, hs⟩

theorem gives_throw (e : Error) : Gives store (throw e : Evaluation α) (.error e) :=
  fun _ hs => ⟨rfl, hs⟩

theorem gives_lift (result : Except Error α) : Gives store (Evaluation.lift result) result :=
  fun _ hs => ⟨rfl, hs⟩

theorem gives_note (e : Event) : Gives store (Evaluation.note e) (.ok ()) :=
  fun _ hs => ⟨rfl, hs⟩

theorem gives_bind {f : α → Evaluation β} {g : α → Except Error β} (hm : Gives store m result)
    (hf : ∀ a, result = .ok a → Gives store (f a) (g a)) :
    Gives store (m >>= f) (result >>= g) := by
  intro session hs
  obtain ⟨hresult, hstore⟩ := hm session hs
  rw [exec_bind]
  rcases hexec : exec m session with ⟨e | a, session₁⟩
  · rw [hexec] at hresult hstore
    subst hresult
    exact ⟨rfl, hstore⟩
  · rw [hexec] at hresult hstore
    subst hresult
    exact hf a rfl session₁ hstore

/-- A sequence gives what its second part gives after the value of the first. -/
theorem gives_bind_ok {f : α → Evaluation β} {a : α} {result : Except Error β}
    (hm : Gives store m (.ok a)) (hf : Gives store (f a) result) :
    Gives store (m >>= f) result := by
  refine gives_bind (g := fun _ => result) hm fun a' h => ?_
  cases h
  exact hf

theorem isSequential_gives : Value.IsSequential fun α => Gives store (α := α) :=
  ⟨gives_pure, fun hm hf => gives_bind hm fun a _ => hf a⟩

theorem gives_outcome (h : Gives store m result) : Gives store m.outcome (.ok result) := by
  intro session hs
  obtain ⟨hresult, hstore⟩ := h session hs
  exact ⟨congrArg Except.ok hresult, hstore⟩

theorem gives_onStore {action : StoreAction α} (h : exec action store = (result, store)) :
    Gives store (Evaluation.onStore action) result := by
  intro session hs
  subst hs
  exact ⟨congrArg Prod.fst h, congrArg Prod.snd h⟩

end Gives

/-! ## Levels -/

section Levels

variable {store : Store} {rules : Rules} {fresh : String → Evaluation Value} {depth : ℕ}
  {below : Option (Unit → Level)} {expanding : List String} {read : String → Except Error Value}

theorem gives_descend {α : Type} {level : Unit → Level} {work : Level → Evaluation α}
    {result : Except Error α} (h : Gives store (work (level ())) result) :
    Gives store (Level.descend rules depth (some level) expanding work) result := by
  have hclose : Gives store (do Evaluation.note .closed; Evaluation.lift result) result :=
    gives_bind_ok (gives_note _) (gives_lift result)
  exact gives_bind_ok (gives_note _) (gives_bind_ok (gives_outcome h) hclose)

section Texts

variable (hread : ∀ y, Gives store (Level.variableOver rules depth below expanding y) (read y))
include hread

theorem gives_segmentOver {s : Segment} (hcall : s.isCall = false) :
    Gives store (Level.segmentOver rules fresh depth below expanding s) (s.expand read) := by
  cases s with
  | text s => exact gives_pure _
  | var name => exact hread name
  | call c => cases hcall

theorem gives_textOver {segments : List Segment} (hcall : segments.any Segment.isCall = false) :
    Gives store (Level.textOver rules fresh depth below expanding segments)
      (Segment.expandAll read segments) := by
  induction segments with
  | nil => exact gives_pure _
  | cons s rest ih =>
    rw [List.any_cons, Bool.or_eq_false_iff] at hcall
    exact gives_bind (gives_segmentOver hread hcall.1) fun _ _ =>
      gives_bind (ih hcall.2) fun _ _ => gives_pure _

theorem gives_templateOver {t : Template} (hcall : t.hasCall = false) :
    Gives store (Level.templateOver rules fresh depth below expanding t.segments)
      (t.expand read) := by
  obtain ⟨segments⟩ := t
  unfold Level.templateOver Template.expand
  cases hsole : (Template.mk segments).solePlaceholder? with
  | none => exact gives_bind (gives_textOver hread hcall) fun _ _ => gives_pure _
  | some s =>
    rw [Template.hasCall, Template.segments_of_solePlaceholder? hsole, List.any_cons,
      Bool.or_eq_false_iff] at hcall
    exact gives_segmentOver hread hcall.1

theorem gives_stringOver {text : String}
    (hcall : ∀ t, Template.parse rules.limit text = .ok t → t.hasCall = false) :
    Gives store (Level.stringOver rules fresh depth below expanding text)
      (Template.expandText read rules.limit text) := by
  intro session hs
  rw [Template.exec_stringOver_eq]
  exact gives_bind (gives_lift _) (fun t ht => gives_templateOver hread (hcall t ht)) session hs

theorem gives_valueOver {v : Value}
    (hcall : ∀ text ∈ v.texts, ∀ t, Template.parse rules.limit text = .ok t → t.hasCall = false) :
    Gives store (Level.valueOver rules fresh depth below expanding v)
      (v.expand read rules.limit) :=
  Value.rel_mapTexts isSequential_gives v
    (fun text hmem => gives_stringOver hread (hcall text hmem)) fun key hmem =>
      gives_bind (gives_stringOver hread (hcall key hmem)) fun _ _ => gives_pure _

end Texts

end Levels

/-! ## Contexts without calls -/

namespace Context

/-- A text stands in the deferred value of a variable. -/
def Has (c : Context) (name text : String) : Prop :=
  ∃ v, c.store.find? name = some ⟨v, true⟩ ∧ text ∈ v.texts

/-- No text of a deferred value holds a call. -/
def IsCallFree (c : Context) : Prop :=
  ∀ name text t, c.Has name text → Template.parse c.limit text = .ok t → t.hasCall = false

/-- The value of a variable while some are being expanded; `deeper` expands deferred values. -/
def readingOver (c : Context) (deeper : List String → Value → Except Error Value)
    (expanding : List String) (name : String) : Except Error Value :=
  match c.store.find? name with
  | none => throw (.unresolvedVariable name)
  | some ⟨v, false⟩ => return v
  | some ⟨v, true⟩ =>
    if name ∈ expanding then throw (.cyclicVariable (Text.join " -> " (expanding ++ [name])))
    else deeper (expanding ++ [name]) v

/-- The value of a variable, with room for so many more to be expanded while these are. -/
def reading (c : Context) : ℕ → List String → String → Except Error Value
  | 0 => c.readingOver fun _ _ => throw (.recursionLimit c.limit)
  | room + 1 => c.readingOver fun expanding v => v.expand (c.reading room expanding) c.limit

variable {c : Context}

theorem IsCallFree.hasCall_eq_false (h : c.IsCallFree) {name : String} {v : Value}
    (hfind : c.store.find? name = some ⟨v, true⟩) :
    ∀ text ∈ v.texts, ∀ t, Template.parse c.limit text = .ok t → t.hasCall = false :=
  fun text hmem t ht => h name text t ⟨v, hfind, hmem⟩ ht

theorem gives_variableOver {depth : ℕ} {below : Option (Unit → Level)}
    {deeper : List String → Value → Except Error Value} {expanding : List String} {name : String}
    (hdeeper : ∀ v, c.store.find? name = some ⟨v, true⟩ →
      Gives c.store (Level.descend c.rules depth below (expanding ++ [name]) fun level =>
        level.value (expanding ++ [name]) v) (deeper (expanding ++ [name]) v)) :
    Gives c.store (Level.variableOver c.rules depth below expanding name)
      (c.readingOver deeper expanding name) := by
  intro session hs
  rw [Level.variableOver, exec_bind_of_ok (exec_get session), hs, readingOver]
  cases hfind : c.store.find? name with
  | none => exact gives_throw _ session hs
  | some binding =>
    obtain ⟨v, _ | _⟩ := binding
    · exact gives_pure v session hs
    · by_cases hmem : name ∈ expanding
      · simp only [hmem, if_true]
        exact gives_throw _ session hs
      · simp only [hmem, if_false]
        exact hdeeper v hfind session hs

/-- In a tower of levels a variable is read as without them. The induction is on the number of
levels: a deferred variable is expanded in the tower below. -/
theorem gives_template_tower (h : c.IsCallFree) (fresh : String → Evaluation Value)
    (room depth : ℕ) (expanding : List String) (name : String) :
    Gives c.store ((Level.tower c.rules fresh room depth).template expanding [.var name])
      (c.reading room expanding name) := by
  induction room generalizing depth expanding name with
  | zero => exact gives_variableOver fun v _ => gives_throw _
  | succ room ih =>
    refine gives_variableOver fun v hfind => gives_descend ?_
    obtain ⟨below, hbelow⟩ := Template.exists_tower_eq c.rules fresh room (depth + 1)
    have hread := ih (depth + 1) (expanding ++ [name])
    simp only [hbelow] at hread ⊢
    exact gives_valueOver hread (h.hasCall_eq_false hfind)

/-- Without calls reading a variable leaves the context as it is. -/
theorem readVariable_eq (h : c.IsCallFree) (name : String) :
    c.readVariable name = (c.reading c.limit [] name, c) := by
  obtain ⟨hresult, hstore⟩ := gives_template_tower h (c.rules.fresh c.readings) c.limit 0 [] name
    ⟨c.store, []⟩ rfl
  rw [← hresult]
  exact Prod.ext rfl (congrArg (fun store => { c with store }) hstore)

end Context

end Casebook
