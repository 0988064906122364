import Casebook.Proofs.Value.Ordered
import Casebook.Proofs.Value.Texts
import Casebook.Value.Rendering

/-!
# The shape of values

Work on the texts of a value keeps everything else of it. `KeepsShape` is the law of such work, level
by level: null, booleans and numbers stay, an array becomes one of the same length, item by item, and
an object becomes one whose keys are what its keys become as texts. The parts are worked on in the
order in which they stand, each in the state that the part before it left. Two keys may become the
same; then the later entry stays, so entries get lost exactly if keys do.

Whatever texts become, `mapTexts` keeps the shape: `keepsShape_mapTexts`. If all texts stay as they
are, so does the value: `mapTexts_eq_pure`.
-/

namespace Casebook.Value

open Computation

/-! ## The law -/

section Law

variable {α β σ : Type}

/-- Items become others one after another, each in the state that the one before it left. -/
def InOrder (R : α → σ → β → σ → Prop) : List α → σ → List β → σ → Prop
  | [], s, results, s' => results = [] ∧ s' = s
  | a :: rest, s, results, s' =>
    ∃ b more s₁, results = b :: more ∧ R a s b s₁ ∧ InOrder R rest s₁ more s'

theorem InOrder.length_eq {R : α → σ → β → σ → Prop} {items : List α} {results : List β} {s s' : σ}
    (h : InOrder R items s results s') : results.length = items.length := by
  induction items generalizing results s with
  | nil =>
    rw [h.1]
    rfl
  | cons a rest ih =>
    obtain ⟨b, more, s₁, rfl, -, hrest⟩ := h
    rw [List.length_cons, List.length_cons, ih hrest]

/-- An entry becomes another: the key becomes the rendering of what it becomes as a text, and then the
value becomes the other value. -/
def EntryBecomes (R : Value → σ → Value → σ → Prop) (entry : String × Value) (s : σ)
    (entry' : String × Value) (s' : σ) : Prop :=
  ∃ key s₁, R (.string entry.1) s key s₁ ∧ entry'.1 = key.render ∧ R entry.2 s₁ entry'.2 s'

/-- What values become in a state, and the state that is left then, keep the shape of values. -/
structure KeepsShape (R : Value → σ → Value → σ → Prop) : Prop where
  null : ∀ s w s', R .null s w s' ↔ w = .null ∧ s' = s
  bool : ∀ b s w s', R (.bool b) s w s' ↔ w = .bool b ∧ s' = s
  number : ∀ n s w s', R (.number n) s w s' ↔ w = .number n ∧ s' = s
  array : ∀ items s w s', R (.array items) s w s' ↔
    ∃ results, w = .array results ∧ results.length = items.length ∧ InOrder R items s results s'
  object : ∀ entries s w s', R (.object entries) s w s' ↔
    ∃ results d, w = .object d ∧ InOrder (EntryBecomes R) entries s results s' ∧
      Dict.Collects results d ∧ (d.length = entries.length ↔ (results.map Prod.fst).Nodup)

end Law

/-! ## Work on texts -/

/-- What a computation gives in a state, and the state it leaves, go through sequences. -/
structure IsRun {m : Type → Type} [Monad m] {σ : Type}
    (Run : (α : Type) → m α → σ → α → σ → Prop) : Prop where
  pure : ∀ {α : Type} (a : α) (s : σ) (b : α) (s' : σ), Run α (pure a) s b s' ↔ b = a ∧ s' = s
  bind : ∀ {α β : Type} (x : m α) (f : α → m β) (s : σ) (b : β) (s' : σ),
    Run β (x >>= f) s b s' ↔ ∃ a s₁, Run α x s a s₁ ∧ Run β (f a) s₁ b s'

/-- A computation with a state and errors comes to a value. -/
theorem isRun_exec {ε σ : Type} :
    IsRun fun (α : Type) (x : ExceptT ε (StateM σ) α) s a s' => exec x s = (.ok a, s') where
  pure a s b s' := by
    rw [exec_pure, Prod.mk.injEq, Except.ok.injEq, eq_comm, @eq_comm _ s]
  bind _ _ _ _ _ := exec_bind_eq_ok

theorem isRun_id : IsRun fun (α : Type) (x : Id α) (_ : Unit) a _ => x.run = a where
  pure a _ b _ := ⟨fun h => ⟨h.symm, rfl⟩, fun h => h.1.symm⟩
  bind x f _ b _ := by
    constructor
    · intro h
      exact ⟨x.run, (), rfl, h⟩
    · rintro ⟨a, _, rfl, h⟩
      exact h

section Runs

variable {m : Type → Type} [Monad m] {σ : Type} {Run : (α : Type) → m α → σ → α → σ → Prop}
  {onText : String → m Value} {onKey : String → m String}

theorem run_mapTextsOfItems_iff (hRun : IsRun Run) (items : List Value) (s : σ)
    (results : List Value) (s' : σ) :
    Run (List Value) (mapTextsOfItems onText onKey items) s results s' ↔
      InOrder (fun v s w s' => Run Value (v.mapTexts onText onKey) s w s') items s results s' := by
  induction items generalizing s results s' with
  | nil => exact hRun.pure [] s results s'
  | cons item rest ih =>
    simp only [mapTextsOfItems, hRun.bind, hRun.pure, ih, InOrder]
    constructor
    · rintro ⟨w, s₁, hitem, more, s₂, hrest, rfl, rfl⟩
      exact ⟨w, more, s₁, rfl, hitem, hrest⟩
    · rintro ⟨w, more, s₁, rfl, hitem, hrest⟩
      exact ⟨w, s₁, hitem, more, s', hrest, rfl, rfl⟩

/-- Entries are put on top of those already done once they have become others. -/
theorem run_mapTextsOfEntries_iff (hRun : IsRun Run)
    (hkey : ∀ key, onKey key = onText key >>= fun v => pure v.render) (done : Dict Value)
    (entries : List (String × Value)) (s : σ) (d : Dict Value) (s' : σ) :
    Run (Dict Value) (mapTextsOfEntries onText onKey done entries) s d s' ↔
      ∃ results, d = done.insertAll results ∧
        InOrder (EntryBecomes fun v s w s' => Run Value (v.mapTexts onText onKey) s w s') entries s
          results s' := by
  induction entries generalizing done s with
  | nil =>
    refine (hRun.pure done s d s').trans ⟨?_, ?_⟩
    · rintro ⟨rfl, rfl⟩
      exact ⟨[], rfl, rfl, rfl⟩
    · rintro ⟨_, rfl, rfl, rfl⟩
      exact ⟨rfl, rfl⟩
  | cons entry rest ih =>
    obtain ⟨key, item⟩ := entry
    simp only [mapTextsOfEntries, hkey, hRun.bind, hRun.pure, ih, InOrder]
    -- The key's rendering leaves no state of its own, so the value starts where the key ended.
    constructor
    · rintro ⟨key', s₂, ⟨v, s₁, htext, rfl, rfl⟩, w, s₃, hitem, more, rfl, hrest⟩
      exact ⟨_, rfl, (v.render, w), more, s₃, rfl, ⟨v, s₂, htext, rfl, hitem⟩, hrest⟩
    · rintro ⟨_, rfl, ⟨key', w⟩, more, s₃, rfl, ⟨v, s₁, htext, hkey', hitem⟩, hrest⟩
      exact ⟨key', s₁, ⟨v, s₁, htext, hkey', rfl⟩, w, s₃, hitem, more, rfl, hrest⟩

/-- Work on texts keeps the shape of values, if a key becomes the rendering of what it becomes as a
text. -/
theorem keepsShape_mapTexts (hRun : IsRun Run)
    (hkey : ∀ key, onKey key = onText key >>= fun v => pure v.render) :
    KeepsShape fun v s w s' => Run Value (v.mapTexts onText onKey) s w s' where
  null s w s' := by rw [mapTexts, hRun.pure]
  bool b s w s' := by rw [mapTexts, hRun.pure]
  number n s w s' := by rw [mapTexts, hRun.pure]
  array items s w s' := by
    simp only [mapTexts, hRun.bind, hRun.pure, run_mapTextsOfItems_iff hRun]
    constructor
    · rintro ⟨results, s₁, hitems, rfl, rfl⟩
      exact ⟨results, rfl, hitems.length_eq, hitems⟩
    · rintro ⟨results, rfl, -, hitems⟩
      exact ⟨results, s', hitems, rfl, rfl⟩
  object entries s w s' := by
    simp only [mapTexts, hRun.bind, hRun.pure, run_mapTextsOfEntries_iff hRun hkey]
    constructor
    · rintro ⟨_, s₁, ⟨results, rfl, hentries⟩, rfl, rfl⟩
      have hcollects := Dict.collects_ofList results
      refine ⟨results, _, rfl, hentries, hcollects, ?_⟩
      rw [← hentries.length_eq]
      exact hcollects.length_eq_iff
    · rintro ⟨results, d, rfl, hentries, hcollects, -⟩
      exact ⟨d, s', ⟨results, hcollects.eq_ofList, hentries⟩, rfl, rfl⟩

end Runs

/-! ## Texts that stay -/

section Unchanged

variable {m : Type → Type} [Monad m] [LawfulMonad m] {onText : String → m Value}
  {onKey : String → m String}

mutual

/-- A value of which all texts stay as they are stays as it is. -/
theorem mapTexts_eq_pure {v : Value} (hv : v.Ordered)
    (htext : ∀ t ∈ v.texts, onText t = pure (.string t)) (hkey : ∀ t ∈ v.texts, onKey t = pure t) :
    v.mapTexts onText onKey = pure v := by
  cases hv with
  | null => rfl
  | bool b => rfl
  | number n => rfl
  | string s => exact htext s List.mem_cons_self
  | array each => rw [mapTexts, mapTextsOfItems_eq_pure each htext hkey, pure_bind]
  | object ordered each =>
    rw [mapTexts, mapTextsOfEntries_eq_pure [] each htext hkey, pure_bind]
    exact congrArg (pure ∘ object) ordered.ofList_eq

theorem mapTextsOfItems_eq_pure {items : List Value} (each : ∀ v ∈ items, v.Ordered)
    (htext : ∀ t ∈ textsOfItems items, onText t = pure (.string t))
    (hkey : ∀ t ∈ textsOfItems items, onKey t = pure t) :
    mapTextsOfItems onText onKey items = pure items := by
  cases items with
  | nil => rfl
  | cons item rest =>
    obtain ⟨hitem, hrest⟩ := List.forall_mem_cons.mp each
    obtain ⟨htext, htexts⟩ := List.forall_mem_append.mp htext
    obtain ⟨hkey, hkeys⟩ := List.forall_mem_append.mp hkey
    rw [mapTextsOfItems, mapTexts_eq_pure hitem htext hkey, pure_bind,
      mapTextsOfItems_eq_pure hrest htexts hkeys, pure_bind]

theorem mapTextsOfEntries_eq_pure (done : Dict Value) {entries : List (String × Value)}
    (each : ∀ entry ∈ entries, entry.2.Ordered)
    (htext : ∀ t ∈ textsOfEntries entries, onText t = pure (.string t))
    (hkey : ∀ t ∈ textsOfEntries entries, onKey t = pure t) :
    mapTextsOfEntries onText onKey done entries = pure (done.insertAll entries) := by
  cases entries with
  | nil => rfl
  | cons entry rest =>
    obtain ⟨key, item⟩ := entry
    obtain ⟨hitem, hrest⟩ := List.forall_mem_cons.mp each
    obtain ⟨htext, htexts⟩ := List.forall_mem_append.mp (List.forall_mem_cons.mp htext).2
    obtain ⟨hfirst, hkey⟩ := List.forall_mem_cons.mp hkey
    obtain ⟨hkey, hkeys⟩ := List.forall_mem_append.mp hkey
    rw [mapTextsOfEntries, hfirst, pure_bind, mapTexts_eq_pure hitem htext hkey, pure_bind,
      mapTextsOfEntries_eq_pure _ hrest htexts hkeys]
    rfl

end

end Unchanged

end Casebook.Value
