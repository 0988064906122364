import Mathlib.Control.Monad.Basic
import Mathlib.Order.Defs.Unbundled

/-!
# Computations with a state and errors

Evaluating, composing and running a case are computations of one shape: each works on a state and
may end in an error, and what it did before the error stays done. This file takes such a
computation apart.

* `exec_bind_eq_ok` and `exec_bind_eq_error` say when a sequence of two computations gives a value
  and when it gives an error;
* `Moves R m` says that `m` takes every state to one that `R` relates it to, be it with an error. A
  sequence moves along `R` as soon as its parts do, so frame conditions are proved part by part;
* `LooksAt view m` says that `m` depends on nothing but a view of the state: from two states with
  the same view it gives the same and leaves states with the same view;
* `Keeps I V E m` says that `m` keeps an invariant of the state, and gives a value of which `V`
  holds or an error of which `E` holds; `AgreesOn I m m'` says that two computations do the same
  from states with the invariant;
* `Leads I V E m` says what holds of the state that `m` leaves, apart for a value and for an error.
-/

namespace Casebook.Computation

variable {ε σ τ α β : Type}

/-! ## Results without a state -/

theorem ok_bind (a : α) (f : α → Except ε β) : (Except.ok a >>= f) = f a :=
  rfl

/-- A sequence of two results is a value if both are. -/
theorem bind_eq_ok {x : Except ε α} {f : α → Except ε β} {b : β} :
    (x >>= f) = .ok b ↔ ∃ a, x = .ok a ∧ f a = .ok b := by
  cases x with
  | error e => simp [bind, Except.bind]
  | ok a => simp [bind, Except.bind]

theorem map_eq_ok {x : Except ε α} {f : α → β} {b : β} :
    x.map f = .ok b ↔ ∃ a, x = .ok a ∧ f a = b := by
  cases x with
  | error e => simp [Except.map]
  | ok a => simp [Except.map]

/-- A sequence of two results is an error if one of them is. -/
theorem bind_eq_error {x : Except ε α} {f : α → Except ε β} {e : ε} :
    (x >>= f) = .error e ↔ x = .error e ∨ ∃ a, x = .ok a ∧ f a = .error e := by
  cases x with
  | error e' => simp [bind, Except.bind]
  | ok a => simp [bind, Except.bind]

theorem map_eq_error {x : Except ε α} {f : α → β} {e : ε} :
    x.map f = .error e ↔ x = .error e := by
  cases x with
  | error e' => simp [Except.map]
  | ok a => simp [Except.map]

@[simp] theorem pure_eq_ok {a b : α} : (pure a : Except ε α) = .ok b ↔ a = b :=
  ⟨Except.ok.inj, congrArg Except.ok⟩

@[simp] theorem throw_ne_ok (e : ε) (a : α) : (throw e : Except ε α) ≠ .ok a :=
  nofun

/-- A sequence comes to a value if its first part does, and its second then does. -/
theorem exists_bind_iff {x : Except ε α} {f : α → Except ε β} {P : Prop}
    (h : ∀ a, (∃ b, f a = .ok b) ↔ P) :
    (∃ b, (x >>= f) = .ok b) ↔ (∃ a, x = .ok a) ∧ P := by
  simp only [bind_eq_ok]
  constructor
  · rintro ⟨b, a, ha, hb⟩
    exact ⟨⟨a, ha⟩, (h a).mp ⟨b, hb⟩⟩
  · rintro ⟨⟨a, ha⟩, hP⟩
    obtain ⟨b, hb⟩ := (h a).mpr hP
    exact ⟨b, a, ha, hb⟩

theorem exists_bind_pure_iff {x : Except ε α} {f : α → β} :
    (∃ b, (x >>= fun a => pure (f a)) = .ok b) ↔ ∃ a, x = .ok a := by
  have h (a : α) : (∃ b, (pure (f a) : Except ε β) = .ok b) ↔ True :=
    iff_of_true ⟨f a, rfl⟩ trivial
  rw [exists_bind_iff h, and_true]

/-- Each of the results of items is the result of one of them. -/
theorem exists_of_mem_mapM {f : α → Except ε β} {items : List α} {results : List β}
    (h : items.mapM f = .ok results) {b : β} (hb : b ∈ results) : ∃ a ∈ items, f a = .ok b := by
  induction items generalizing results with
  | nil =>
    rw [List.mapM_nil, pure_eq_ok] at h
    subst h
    cases hb
  | cons item rest ih =>
    rw [List.mapM_cons] at h
    obtain ⟨first, hfirst, h⟩ := bind_eq_ok.mp h
    obtain ⟨more, hmore, h⟩ := bind_eq_ok.mp h
    rw [pure_eq_ok] at h
    subst h
    rcases List.mem_cons.mp hb with rfl | hb
    · exact ⟨item, List.mem_cons_self, hfirst⟩
    · obtain ⟨a, ha, hresult⟩ := ih hmore hb
      exact ⟨a, List.mem_cons_of_mem _ ha, hresult⟩

/-- What holds of no items but not of all of them stops holding at one of them. -/
theorem exists_first_failure {P : List α → Prop} (hnil : P []) {items : List α} (h : ¬P items) :
    ∃ before item after, items = before ++ item :: after ∧ P before ∧ ¬P (before ++ [item]) := by
  induction items generalizing P with
  | nil => exact absurd hnil h
  | cons a rest ih =>
    by_cases ha : P [a]
    · obtain ⟨before, item, after, rfl, hbefore, hitem⟩ := ih (P := fun l => P (a :: l)) ha h
      exact ⟨a :: before, item, after, rfl, hbefore, hitem⟩
    · exact ⟨[], a, rest, rfl, hnil, ha⟩

/-- What each step of a loop keeps, the loop keeps. -/
theorem foldlM_keeps {f : β → α → Except ε β} {P : β → Prop}
    (hf : ∀ b a b', P b → f b a = .ok b' → P b') {items : List α} {b b' : β} (hb : P b)
    (h : items.foldlM f b = .ok b') : P b' := by
  induction items generalizing b with
  | nil =>
    cases h
    exact hb
  | cons a rest ih =>
    rw [List.foldlM_cons] at h
    obtain ⟨b₁, hstep, hrest⟩ := bind_eq_ok.mp h
    exact ih (hf b a b₁ hb hstep) hrest

/-! ## Results from a state -/

/-- What a computation gives from a state, and the state it leaves. -/
def exec (m : ExceptT ε (StateM σ) α) (s : σ) : Except ε α × σ :=
  m.run.run s

section Run

variable {m : ExceptT ε (StateM σ) α} {f : α → ExceptT ε (StateM σ) β} {s s' : σ}

@[simp] theorem exec_pure (a : α) (s : σ) :
    exec (pure a : ExceptT ε (StateM σ) α) s = (.ok a, s) := rfl

@[simp] theorem exec_throw (e : ε) (s : σ) :
    exec (throw e : ExceptT ε (StateM σ) α) s = (.error e, s) := rfl

@[simp] theorem exec_get (s : σ) :
    exec (get : ExceptT ε (StateM σ) σ) s = (.ok s, s) := rfl

@[simp] theorem exec_modify (g : σ → σ) (s : σ) :
    exec (modify g : ExceptT ε (StateM σ) PUnit) s = (.ok ⟨⟩, g s) := rfl

/-- A sequence goes on where its first part ended, unless that was an error. -/
theorem exec_bind (m : ExceptT ε (StateM σ) α) (f : α → ExceptT ε (StateM σ) β) (s : σ) :
    exec (m >>= f) s =
      match exec m s with
      | (.ok a, s₁) => exec (f a) s₁
      | (.error e, s₁) => (.error e, s₁) := by
  show (match (exec m s).1 with
      | .ok a => f a
      | .error e => pure (.error e) : StateM σ (Except ε β)) (exec m s).2 = _
  rcases exec m s with ⟨a | a, s₁⟩ <;> rfl

theorem exec_bind_of_ok {a : α} {s₁ : σ} (h : exec m s = (.ok a, s₁)) :
    exec (m >>= f) s = exec (f a) s₁ := by
  rw [exec_bind, h]

/-- A sequence gives a value if both parts do. -/
theorem exec_bind_eq_ok {b : β} :
    exec (m >>= f) s = (.ok b, s') ↔
      ∃ a s₁, exec m s = (.ok a, s₁) ∧ exec (f a) s₁ = (.ok b, s') := by
  rw [exec_bind]
  rcases exec m s with ⟨e | a, s₁⟩
  · simp
  · simp only [Prod.mk.injEq, Except.ok.injEq]
    constructor
    · intro h
      exact ⟨a, s₁, ⟨rfl, rfl⟩, h⟩
    · intro h'
      obtain ⟨_, _, ⟨rfl, rfl⟩, h⟩ := h'
      exact h

/-- A sequence gives an error if its first part does, or its second after a value of the first. -/
theorem exec_bind_eq_error {e : ε} :
    exec (m >>= f) s = (.error e, s') ↔
      exec m s = (.error e, s') ∨
        ∃ a s₁, exec m s = (.ok a, s₁) ∧ exec (f a) s₁ = (.error e, s') := by
  rw [exec_bind]
  rcases exec m s with ⟨e₁ | a, s₁⟩
  · simp
  · simp only [Prod.mk.injEq, reduceCtorEq, false_and, Except.ok.injEq, false_or]
    constructor
    · intro h
      exact ⟨a, s₁, ⟨rfl, rfl⟩, h⟩
    · intro h'
      obtain ⟨_, _, ⟨rfl, rfl⟩, h⟩ := h'
      exact h

end Run

/-! ## Movement of the state -/

/-- A computation takes every state to one that a relation relates it to. -/
def Moves (R : σ → σ → Prop) (m : ExceptT ε (StateM σ) α) : Prop :=
  ∀ s, R s (exec m s).2

/-- Two states look the same. -/
def Same (view : σ → τ) (s s' : σ) : Prop :=
  view s' = view s

instance (view : σ → τ) : Std.Refl (Same view) := ⟨fun _ => rfl⟩

instance (view : σ → τ) : IsTrans σ (Same view) := ⟨fun _ _ _ h h' => Eq.trans h' h⟩

section Moves

variable {R : σ → σ → Prop} {m : ExceptT ε (StateM σ) α} {f : α → ExceptT ε (StateM σ) β}

theorem moves_pure [Std.Refl R] (a : α) : Moves R (pure a : ExceptT ε (StateM σ) α) :=
  fun s => Std.Refl.refl s

theorem moves_throw [Std.Refl R] (e : ε) : Moves R (throw e : ExceptT ε (StateM σ) α) :=
  fun s => Std.Refl.refl s

theorem moves_get [Std.Refl R] : Moves R (get : ExceptT ε (StateM σ) σ) :=
  fun s => Std.Refl.refl s

theorem moves_modify {g : σ → σ} (h : ∀ s, R s (g s)) :
    Moves R (modify g : ExceptT ε (StateM σ) PUnit) :=
  h

theorem moves_bind [IsTrans σ R] (hm : Moves R m) (hf : ∀ a, Moves R (f a)) :
    Moves R (m >>= f) := by
  intro s
  have h := hm s
  rw [exec_bind]
  rcases hs : exec m s with ⟨e | a, s₁⟩ <;> rw [hs] at h
  · exact h
  · exact IsTrans.trans _ _ _ h (hf a s₁)

/-- Where a computation moves to, seen at one run of it. -/
theorem Moves.of_exec (hm : Moves R m) {s s' : σ} {r : Except ε α} (h : exec m s = (r, s')) :
    R s s' := by
  have := hm s
  rwa [h] at this

end Moves

/-! ## Views of the state -/

/-- From states with the same view a computation gives the same, and the view stays the same. -/
def LooksAt (view : σ → τ) (m : ExceptT ε (StateM σ) α) : Prop :=
  ∀ s s', view s = view s' →
    (exec m s).1 = (exec m s').1 ∧ view (exec m s).2 = view (exec m s').2

section LooksAt

variable {view : σ → τ} {m : ExceptT ε (StateM σ) α} {f : α → ExceptT ε (StateM σ) β}

theorem looksAt_pure (a : α) : LooksAt view (pure a : ExceptT ε (StateM σ) α) :=
  fun _ _ h => ⟨rfl, h⟩

theorem looksAt_modify {g : σ → σ} (h : ∀ s s', view s = view s' → view (g s) = view (g s')) :
    LooksAt view (modify g : ExceptT ε (StateM σ) PUnit) :=
  fun s s' hs => ⟨rfl, h s s' hs⟩

theorem LooksAt.bind (hm : LooksAt view m) (hf : ∀ a, LooksAt view (f a)) :
    LooksAt view (m >>= f) := by
  intro s s' hs
  obtain ⟨hresult, hview⟩ := hm s s' hs
  rw [exec_bind, exec_bind]
  rcases hexec : exec m s with ⟨r, t⟩
  rcases hexec' : exec m s' with ⟨r', t'⟩
  rw [hexec, hexec'] at hresult hview
  subst hresult
  cases r with
  | error e => exact ⟨rfl, hview⟩
  | ok a => exact hf a t t' hview

/-- What is got from the state may be used as far as the view goes. -/
theorem looksAt_get_bind {f : σ → ExceptT ε (StateM σ) β} (g : τ → ExceptT ε (StateM σ) β)
    (heq : ∀ s, f s = g (view s)) (hg : ∀ t, LooksAt view (g t)) :
    LooksAt view (get >>= f) := by
  intro s s' hs
  rw [exec_bind_of_ok (exec_get s), exec_bind_of_ok (exec_get s'), heq, heq, hs]
  exact hg (view s') s s' hs

/-- What is got from the state may be used in any way that is the same for states with the same
view. -/
theorem looksAt_get_bind_of_congr {f : σ → ExceptT ε (StateM σ) β}
    (hcongr : ∀ s s', view s = view s' → f s = f s') (hf : ∀ s, LooksAt view (f s)) :
    LooksAt view (get >>= f) := by
  intro s s' hs
  rw [exec_bind_of_ok (exec_get s), exec_bind_of_ok (exec_get s'), ← hcongr s s' hs]
  exact hf s s s' hs

end LooksAt

/-! ## Invariants of the state -/

/-- From a state with an invariant a computation leaves one with it, and it gives a value of one
kind or an error of another. -/
def Keeps (I : σ → Prop) (V : α → Prop) (E : ε → Prop) (m : ExceptT ε (StateM σ) α) : Prop :=
  ∀ s, I s → I (exec m s).2 ∧ (∀ a, (exec m s).1 = .ok a → V a) ∧
    ∀ e, (exec m s).1 = .error e → E e

/-- Two computations do the same from states with an invariant. -/
def AgreesOn (I : σ → Prop) (m m' : ExceptT ε (StateM σ) α) : Prop :=
  ∀ s, I s → exec m s = exec m' s

section Keeps

variable {I : σ → Prop} {V : α → Prop} {W : β → Prop} {E E' : ε → Prop}
  {m m' : ExceptT ε (StateM σ) α} {f f' : α → ExceptT ε (StateM σ) β}

theorem keeps_pure {a : α} (ha : V a) : Keeps I V E (pure a : ExceptT ε (StateM σ) α) := by
  intro s hs
  refine ⟨hs, fun b hb => ?_, nofun⟩
  cases hb
  exact ha

theorem keeps_throw {e : ε} (he : E e) : Keeps I V E (throw e : ExceptT ε (StateM σ) α) := by
  intro s hs
  refine ⟨hs, nofun, fun e' he' => ?_⟩
  cases he'
  exact he

theorem keeps_modify {g : σ → σ} (h : ∀ s, I s → I (g s)) :
    Keeps I (fun _ => True) E (modify g : ExceptT ε (StateM σ) PUnit) :=
  fun s hs => ⟨h s hs, fun _ _ => trivial, nofun⟩

theorem Keeps.bind (hm : Keeps I V E m) (hf : ∀ a, V a → Keeps I W E (f a)) :
    Keeps I W E (m >>= f) := by
  intro s hs
  obtain ⟨hs', hvalue, herror⟩ := hm s hs
  rw [exec_bind]
  rcases hexec : exec m s with ⟨e | a, s'⟩
  · rw [hexec] at hs' herror
    refine ⟨hs', nofun, fun e' he' => ?_⟩
    cases he'
    exact herror e rfl
  · rw [hexec] at hs' hvalue
    exact hf a (hvalue a rfl) s' hs'

theorem Keeps.mono {V' : α → Prop} (hm : Keeps I V E m) (hV : ∀ a, V a → V' a)
    (hE : ∀ e, E e → E' e) : Keeps I V' E' m := by
  intro s hs
  obtain ⟨hs', hvalue, herror⟩ := hm s hs
  exact ⟨hs', fun a ha => hV a (hvalue a ha), fun e he => hE e (herror e he)⟩

theorem agreesOn_refl (I : σ → Prop) (m : ExceptT ε (StateM σ) α) : AgreesOn I m m :=
  fun _ _ => rfl

theorem AgreesOn.bind (h : AgreesOn I m m') (hm : Keeps I V E m)
    (hf : ∀ a, V a → AgreesOn I (f a) (f' a)) : AgreesOn I (m >>= f) (m' >>= f') := by
  intro s hs
  obtain ⟨hs', hvalue, -⟩ := hm s hs
  rw [exec_bind, exec_bind, ← h s hs]
  rcases hexec : exec m s with ⟨e | a, s'⟩
  · rfl
  · rw [hexec] at hs' hvalue
    exact hf a (hvalue a rfl) s' hs'

end Keeps

/-! ## From states to states -/

/-- From states of one kind a computation leads to a value and a state that `V` relates to it, or to
an error and a state that `E` relates to it. -/
def Leads (I : σ → Prop) (V : α → σ → Prop) (E : ε → σ → Prop)
    (m : ExceptT ε (StateM σ) α) : Prop :=
  ∀ s, I s → (∀ a s', exec m s = (.ok a, s') → V a s') ∧ ∀ e s', exec m s = (.error e, s') → E e s'

section Leads

variable {I : σ → Prop} {V : α → σ → Prop} {W : β → σ → Prop} {E : ε → σ → Prop}
  {m : ExceptT ε (StateM σ) α} {f : α → ExceptT ε (StateM σ) β}

theorem leads_pure {a : α} (h : ∀ s, I s → V a s) :
    Leads I V E (pure a : ExceptT ε (StateM σ) α) := by
  refine fun s hs => ⟨fun b s' hexec => ?_, nofun⟩
  cases hexec
  exact h s hs

theorem leads_modify {V : PUnit → σ → Prop} {g : σ → σ} (h : ∀ s, I s → V ⟨⟩ (g s)) :
    Leads I V E (modify g : ExceptT ε (StateM σ) PUnit) := by
  refine fun s hs => ⟨fun b s' hexec => ?_, nofun⟩
  cases hexec
  exact h s hs

theorem leads_get : Leads I (fun a s => I s ∧ a = s) E (get : ExceptT ε (StateM σ) σ) := by
  refine fun s hs => ⟨fun a s' hexec => ?_, nofun⟩
  cases hexec
  exact ⟨hs, rfl⟩

theorem Leads.bind (hm : Leads I V E m) (hf : ∀ a, Leads (V a) W E (f a)) :
    Leads I W E (m >>= f) := by
  refine fun s hs => ⟨fun b s' hexec => ?_, fun e s' hexec => ?_⟩
  · obtain ⟨a, s₁, hfirst, hnext⟩ := exec_bind_eq_ok.mp hexec
    exact (hf a s₁ ((hm s hs).1 a s₁ hfirst)).1 b s' hnext
  · rcases exec_bind_eq_error.mp hexec with hfirst | ⟨a, s₁, hfirst, hnext⟩
    · exact (hm s hs).2 e s' hfirst
    · exact (hf a s₁ ((hm s hs).1 a s₁ hfirst)).2 e s' hnext

theorem Leads.of_imp {J : σ → Prop} (hm : Leads I V E m) (hI : ∀ s, J s → I s) : Leads J V E m :=
  fun s hs => hm s (hI s hs)

theorem Leads.mono {V' : α → σ → Prop} {E' : ε → σ → Prop} (hm : Leads I V E m)
    (hV : ∀ a s, V a s → V' a s) (hE : ∀ e s, E e s → E' e s) : Leads I V' E' m := by
  intro s hs
  obtain ⟨hvalue, herror⟩ := hm s hs
  exact ⟨fun a s' hexec => hV a s' (hvalue a s' hexec),
    fun e s' hexec => hE e s' (herror e s' hexec)⟩

/-- A computation that leaves what is known of the state leads from it to the same. -/
theorem leads_of_moves {R : σ → σ → Prop} (hm : Moves R m) (hR : ∀ s s', R s s' → I s → I s') :
    Leads I (fun _ => I) (fun _ => I) m :=
  fun s hs => ⟨fun _ s' hexec => hR s s' (hm.of_exec hexec) hs,
    fun _ s' hexec => hR s s' (hm.of_exec hexec) hs⟩

end Leads

end Casebook.Computation
