import Casebook.Proofs.Composition.Index
import Casebook.Proofs.Composition.Nesting

/-!
# Failures leave no trace

A composer goes on after a request that failed, so all that a failure leaves behind must be as good
as what a success leaves: no suite is still being expanded, no library is kept in part, and each
expansion that is kept is the whole result of one that succeeded.

`Flawless` says more: the composer could as well have come about without any failure, by reading
whole libraries and by expanding suites that can be expanded. `Intact` is the invariant that all
operations keep, be it with an error. It is kept because what fails is undone by the recursion on
its way out, or was not yet written: an expansion is kept only once it is there.

That an expansion which succeeded inside of another would succeed on its own is `repeats_expandSuite`:
with fewer suites around it and more room it comes to the same.
-/

namespace Casebook.Composition

open Computation Composer

/-! ## Successes that can be repeated -/

section Repeats

variable {α β : Type} {m m' : Composing α} {f f' : α → Composing β}

/-- What one computation succeeds with, another comes to from the same composer, and both leave the
same composer. -/
def Repeats (m m' : Composing α) : Prop :=
  ∀ s t a s', s.composer = t.composer → exec m s = (.ok a, s') →
    ∃ t', exec m' t = (.ok a, t') ∧ s'.composer = t'.composer

/-- What depends on nothing but the composer comes to the same. -/
theorem repeats_of_exec (result : Composer → Except Error α) (next : Composer → Composer)
    (h : ∀ s, exec m s = (result s.composer, { s with composer := next s.composer })) :
    Repeats m m := by
  intro s t a s' hst hrun
  rw [h] at hrun
  obtain ⟨hresult, rfl⟩ := Prod.mk.inj hrun
  refine ⟨{ t with composer := next t.composer }, ?_, congrArg next hst⟩
  rw [h, ← hst, hresult]

theorem repeats_lift (result : Except Error α) :
    Repeats (Composing.lift result) (Composing.lift result) :=
  repeats_of_exec (fun _ => result) id fun _ => rfl

theorem repeats_pure (a : α) : Repeats (pure a) (pure a) :=
  repeats_lift (.ok a)

/-- What fails is repeated by anything. -/
theorem repeats_throw (e : Error) (m' : Composing α) : Repeats (throw e) m' := by
  intro s t a s' _ h
  cases h

theorem repeats_note (e e' : SuiteEvent) : Repeats (Composing.note e) (Composing.note e') := by
  intro s t a s' hst h
  cases h
  exact ⟨_, rfl, hst⟩

theorem repeats_composer : Repeats Composing.composer Composing.composer :=
  repeats_of_exec (fun c => .ok c) id fun _ => rfl

theorem repeats_update (g : Composer → Composer) :
    Repeats (Composing.update g) (Composing.update g) :=
  repeats_of_exec (fun _ => .ok ()) g fun _ => rfl

theorem Repeats.bind (hm : Repeats m m') (hf : ∀ a, Repeats (f a) (f' a)) :
    Repeats (m >>= f) (m' >>= f') := by
  intro s t b s' hst h
  obtain ⟨a, s₁, hfirst, hnext⟩ := exec_bind_eq_ok.mp h
  obtain ⟨t₁, hfirst', hst₁⟩ := hm s t a s₁ hst hfirst
  obtain ⟨t', hnext', hst'⟩ := hf a s₁ t₁ b s' hst₁ hnext
  exact ⟨t', exec_bind_eq_ok.mpr ⟨a, t₁, hfirst', hnext'⟩, hst'⟩

/-- Which suites are being expanded is noted and no more. -/
theorem Repeats.within (hm : Repeats m m') (stack stack' : List String) :
    Repeats (Composing.within stack m) (Composing.within stack' m') := by
  intro s t a s' hst h
  rw [exec_within] at h
  obtain ⟨hresult, rfl⟩ := Prod.mk.inj h
  obtain ⟨t₁, hrun, hst₁⟩ := hm { s with journal := .begun stack :: s.journal }
    { t with journal := .begun stack' :: t.journal } a _ hst (Prod.ext hresult rfl)
  rw [exec_within, hrun]
  exact ⟨_, rfl, hst₁⟩

variable (files : Files)

theorem repeats_fragment (kind : FragmentKind) (name : String) :
    Repeats (fragment files kind name) (fragment files kind name) :=
  repeats_of_exec (fun c => c.lookup files kind name) (fun c => c.indexed files kind)
    (exec_fragment kind name)

theorem repeats_mergeApi (base : Case) (r : Reference) :
    Repeats (mergeApi files base r) (mergeApi files base r) :=
  repeats_of_exec (fun c => (c.fieldsFor files r).map fun fields => fields.overlay base)
    (fun c => c.indexed files .api) (exec_mergeApi base r)

variable {files} {suite suite' : Reference → Composing (List Case)}

theorem repeats_expandEntries (hsuite : ∀ r, Repeats (suite r) (suite' r)) (entries : List Entry) :
    Repeats (expandEntries files suite entries) (expandEntries files suite' entries) := by
  induction entries with
  | nil => exact repeats_pure []
  | cons entry rest ih =>
    refine Repeats.bind ?_ fun _ => ih.bind fun _ => repeats_pure _
    cases entry with
    | case c => exact repeats_pure [c]
    | api base r => exact (repeats_mergeApi files base r).bind fun c => repeats_pure [c]
    | suite r => exact hsuite r

theorem repeats_expandFresh (hsuite : ∀ r, Repeats (suite r) (suite' r)) (f : Fragment)
    (body : Value) : Repeats (expandFresh files suite f body) (expandFresh files suite' f body) :=
  repeats_composer.bind fun _ => (repeats_lift _).bind fun d => repeats_expandEntries hsuite d.entries

variable (files)

theorem repeats_expandSuite_of_uncached {room room' : ℕ} {stack stack' : List String}
    (hstack : stack' ⊆ stack) {r : Reference}
    (h : ∀ f body, Repeats (expandUncached files room stack r f body)
      (expandUncached files room' stack' r f body)) :
    Repeats (expandSuite files room stack r) (expandSuite files room' stack' r) := by
  rw [expandSuite_eq, expandSuite_eq]
  refine (repeats_note _ _).bind fun _ => ?_
  by_cases hr : r.name ∈ stack
  · rw [if_pos hr]
    exact repeats_throw _ _
  rw [if_neg hr, if_neg fun hr' => hr (hstack hr')]
  refine (repeats_fragment files .suite r.name).bind fun f => (repeats_lift _).bind fun body =>
    repeats_composer.bind fun c => ?_
  cases c.expanded.get? r.key with
  | some cases => exact repeats_pure cases
  | none => exact h f body

/-- A suite that can be expanded inside of others can be expanded inside of fewer, with as much room
or more. The induction is on the room. -/
theorem repeats_expandSuite {room room' : ℕ} (hroom : room ≤ room') {stack stack' : List String}
    (hstack : stack' ⊆ stack) (r : Reference) :
    Repeats (expandSuite files room stack r) (expandSuite files room' stack' r) := by
  induction room generalizing room' stack stack' r with
  | zero =>
    exact repeats_expandSuite_of_uncached files hstack fun f body => repeats_throw _ _
  | succ room ih =>
    obtain ⟨room', rfl⟩ : ∃ n, room' = n + 1 := ⟨room' - 1, by omega⟩
    have hinner : stack' ++ [r.name] ⊆ stack ++ [r.name] := List.append_subset.mpr
      ⟨fun x hx => List.mem_append_left _ (hstack hx), List.subset_append_right _ _⟩
    refine repeats_expandSuite_of_uncached files hstack fun f body => ?_
    refine ((repeats_expandFresh (fun r' => ?_) f body).within _ _).bind fun cases =>
      (repeats_update _).bind fun _ => repeats_pure cases
    exact ih (by omega) hinner r'

/-- What succeeds inside of other suites succeeds on its own. -/
theorem run_expand_of_expandSuite {room : ℕ} {stack : List String} {r : Reference}
    {s s' : Composition} {l : Library} (hl : s.composer.suites = some l) (hroom : room ≤ l.length)
    {cases : List Case} (h : exec (expandSuite files room stack r) s = (.ok cases, s')) :
    s.composer.run (expand files r) = (.ok cases, s'.composer) := by
  obtain ⟨t', hrun, hsame⟩ := repeats_expandSuite files hroom (List.nil_subset stack) r s
    ⟨s.composer, []⟩ cases s' rfl h
  have hlibrary : exec (library files .suite) ⟨s.composer, []⟩ = (.ok l, ⟨s.composer, []⟩) := by
    have hl' : s.composer.library? .suite = some l := hl
    have hindex : s.composer.index files .suite = .ok l := by rw [index, hl']
    rw [exec_library, hindex, indexed_of_ok hindex, keep_of_library? hl']
  have hexpand : exec (expand files r) ⟨s.composer, []⟩ = (.ok cases, t') := by
    rw [expand, exec_bind_of_ok hlibrary, hrun]
  have heq : s.composer.run (expand files r) =
      ((exec (expand files r) ⟨s.composer, []⟩).1, (exec (expand files r) ⟨s.composer, []⟩).2.composer) :=
    rfl
  rw [heq, hexpand, hsame]

end Repeats

/-! ## Composers that saw no failure -/

section Flawless

variable (history : List Files) (area : String) (layout : Layout)

/-- The composers of a dependency area that come about without any failure, from files as they once
were: by reading a library that was not read before and by expanding a suite. -/
inductive Flawless : Composer → Prop where
  | fresh : Flawless (ofArea area layout)
  | read {c : Composer} {files : Files} {kind : FragmentKind} {l : Library} (before : Flawless c)
      (known : files ∈ history) (unread : c.library? kind = none)
      (whole : Library.read files kind c.layout.depth (c.folder kind) = .ok l) :
      Flawless (c.keep kind l)
  | expanded {c c' : Composer} {files : Files} {r : Reference} {cases : List Case}
      (before : Flawless c) (known : files ∈ history)
      (whole : c.run (expand files r) = (.ok cases, c')) : Flawless c'

/-- A composer stays where it is, and each library it has is one that was read from files. -/
structure Located (c : Composer) : Prop where
  area_eq : c.area = area
  layout_eq : c.layout = layout
  library : ∀ kind l, c.library? kind = some l →
    ∃ files ∈ history, Expansion.library files area layout kind = .ok l

/-- These cases are all that some reference with a key is expanded into, by a composer that saw no
failure. -/
def IsExpansion (key : String) (cases : List Case) : Prop :=
  ∃ files ∈ history, ∃ c r, Flawless history area layout c ∧ r.key = key ∧
    (c.run (expand files r)).1 = .ok cases

/-- What is intact at every moment: the journal tells that these suites are being expanded, the
libraries are whole, the composer might have seen no failure, and so might those that each expansion
comes from. The suites of the composer are those that are known, if any are. -/
structure Intact (known : Option Library) (stack : List String) (s : Composition) : Prop where
  stack_eq : openSuites s.journal = stack
  suites_eq : ∀ l, known = some l → s.composer.suites = some l
  located : Located history area layout s.composer
  flawless : Flawless history area layout s.composer
  whole : ∀ key cases, s.composer.expanded.get? key = some cases →
    IsExpansion history area layout key cases

end Flawless

theorem Located.keep {history : List Files} {area : String} {layout : Layout} {c : Composer}
    (h : Located history area layout c) {files : Files} (hfiles : files ∈ history)
    {kind : FragmentKind} {l : Library}
    (hread : Library.read files kind c.layout.depth (c.folder kind) = .ok l) :
    Located history area layout (c.keep kind l) := by
  obtain ⟨rfl, rfl, hlibrary⟩ := h
  refine ⟨area_keep c kind l, layout_keep c kind l, fun kind' l' hl' => ?_⟩
  by_cases hkind : kind = kind'
  · subst hkind
    rw [library?_keep] at hl'
    obtain rfl := Option.some.inj hl'
    exact ⟨files, hfiles, hread⟩
  · rw [library?_keep_of_ne hkind] at hl'
    exact hlibrary kind' l' hl'

/-! ## The step into a suite -/

/-- What an expansion does to a composer that has its suites: nothing, or it comes back from inside
of the suite, and if that was no error the cases are kept. -/
theorem expandSuite_cases {files : Files} {room : ℕ} {stack : List String} {r : Reference}
    {s s' : Composition} {l : Library} {result : Except Error (List Case)}
    (hl : s.composer.suites = some l)
    (h : exec (expandSuite files room stack r) s = (result, s')) :
    s' = { s with journal := .met r :: s.journal } ∨
      ∃ inner f body, room = inner + 1 ∧ ∃ result' s₁,
        exec (Composing.within (stack ++ [r.name])
            (expandFresh files (expandSuite files inner (stack ++ [r.name])) f body))
          { s with journal := .met r :: s.journal } = (result', s₁) ∧
        ((∃ e, result' = .error e ∧ s' = s₁) ∨
          ∃ cases, result' = .ok cases ∧ result = .ok cases ∧ s' = { s₁ with
            composer := { s₁.composer with expanded := s₁.composer.expanded.insert r.key cases } }) := by
  set s₀ : Composition := { s with journal := .met r :: s.journal } with hs₀
  have hl₀ : s₀.composer.library? .suite = some l := hl
  have hindexed : s₀.composer.indexed files .suite = s₀.composer := by
    rw [indexed_of_ok (by rw [index, hl₀]), keep_of_library? hl₀]
  have hnote : exec (Composing.note (.met r)) s = (.ok (), s₀) := rfl
  rw [expandSuite_eq, exec_bind_of_ok hnote] at h
  by_cases hr : r.name ∈ stack
  · rw [if_pos hr] at h
    exact .inl (Prod.mk.inj h).2.symm
  rw [if_neg hr, expandNew, exec_bind, exec_fragment, hindexed] at h
  cases hf : s₀.composer.lookup files .suite r.name with
  | error e =>
    rw [hf] at h
    exact .inl (Prod.mk.inj h).2.symm
  | ok f =>
    rw [hf] at h
    simp only at h
    rw [exec_bind, exec_lift] at h
    cases hbody : f.instantiate r with
    | error e =>
      rw [hbody] at h
      exact .inl (Prod.mk.inj h).2.symm
    | ok body =>
      rw [hbody] at h
      simp only at h
      rw [expandOpened, exec_bind_of_ok (exec_composer _)] at h
      cases hget : s₀.composer.expanded.get? r.key with
      | some cases =>
        rw [hget] at h
        exact .inl (Prod.mk.inj h).2.symm
      | none =>
        rw [hget] at h
        cases room with
        | zero => exact .inl (Prod.mk.inj h).2.symm
        | succ inner =>
          simp only [expandUncached] at h
          rw [exec_bind] at h
          rcases hinside : exec (Composing.within (stack ++ [r.name])
            (expandFresh files (expandSuite files inner (stack ++ [r.name])) f body)) s₀ with
            ⟨e | cases, s₁⟩
          · rw [hinside] at h
            have hs' := (Prod.mk.inj h).2.symm
            exact .inr ⟨inner, f, body, rfl, _, _, hinside, .inl ⟨e, rfl, hs'⟩⟩
          · rw [hinside] at h
            obtain ⟨hresult, hs'⟩ := Prod.mk.inj h
            exact .inr ⟨inner, f, body, rfl, _, _, hinside, .inr ⟨cases, rfl, hresult.symm, hs'.symm⟩⟩

/-! ## Everything stays intact -/

namespace Intact

variable {history : List Files} {area : String} {layout : Layout} {known : Option Library}
  {stack : List String} {s : Composition} {α : Type} {m : Composing α}

theorem ofArea (history : List Files) (area : String) (layout : Layout) :
    Intact history area layout none [] ⟨Composer.ofArea area layout, []⟩ where
  stack_eq := rfl
  suites_eq := nofun
  located := ⟨rfl, rfl, fun kind l hl => by cases kind <;> cases hl⟩
  flawless := .fresh
  whole := nofun

theorem forget (h : Intact history area layout known stack s) :
    Intact history area layout none stack s :=
  ⟨h.stack_eq, nofun, h.located, h.flawless, h.whole⟩

theorem know (h : Intact history area layout known stack s) {l : Library}
    (hl : s.composer.suites = some l) : Intact history area layout (some l) stack s := by
  refine ⟨h.stack_eq, fun l' hl' => ?_, h.located, h.flawless, h.whole⟩
  rw [hl, hl']

theorem met (h : Intact history area layout known stack s) (r : Reference) :
    Intact history area layout known stack { s with journal := .met r :: s.journal } :=
  ⟨h.stack_eq, h.suites_eq, h.located, h.flawless, h.whole⟩

theorem begun (h : Intact history area layout known stack s) (inner : List String) :
    Intact history area layout known inner { s with journal := .begun inner :: s.journal } :=
  ⟨rfl, h.suites_eq, h.located, h.flawless, h.whole⟩

theorem ended {name : String} (h : Intact history area layout known (stack ++ [name]) s) :
    Intact history area layout known stack { s with journal := .ended :: s.journal } := by
  refine ⟨?_, h.suites_eq, h.located, h.flawless, h.whole⟩
  rw [openSuites, h.stack_eq, List.dropLast_concat]

/-- Being asked for fragments keeps a composer intact: it reads the whole library, or else it keeps
none. -/
theorem indexed (h : Intact history area layout known stack s) {files : Files}
    (hfiles : files ∈ history) (kind : FragmentKind) :
    Intact history area layout known stack
      { s with composer := s.composer.indexed files kind } := by
  cases hread : s.composer.index files kind with
  | error e =>
    rw [indexed_of_error hread]
    exact h
  | ok l =>
    cases hl : s.composer.library? kind with
    | some l' =>
      have hindex : s.composer.index files kind = .ok l' := by rw [index, hl]
      rw [indexed_of_ok hindex, keep_of_library? hl]
      exact h
    | none =>
      rw [indexed_of_ok hread]
      rw [index, hl] at hread
      refine ⟨h.stack_eq, fun l' hl' => ?_, h.located.keep hfiles hread,
        h.flawless.read hfiles hl hread, ?_⟩
      · have hsuites := h.suites_eq l' hl'
        cases kind with
        | api => exact hsuites
        | suite =>
          -- The suites that are known were not to be read.
          rw [show s.composer.suites = none from hl] at hsuites
          cases hsuites
      · intro key cases hget
        exact h.whole key cases (by rwa [expanded_keep] at hget)

/-- A computation keeps everything intact, whether it comes to a value or to an error. -/
abbrev Kept (history : List Files) (area : String) (layout : Layout) (known : Option Library)
    (stack : List String) (m : Composing α) : Prop :=
  Keeps (Intact history area layout known stack) (fun _ => True) (fun _ => True) m

theorem kept_lift (result : Except Error α) :
    Kept history area layout known stack (Composing.lift result) :=
  (keeps_lift result).mono (fun _ _ => trivial) fun _ _ => trivial

theorem kept_pure (a : α) : Kept history area layout known stack (pure a : Composing α) :=
  keeps_pure trivial

theorem kept_composer : Kept history area layout known stack Composing.composer :=
  fun _ hs => ⟨hs, fun _ _ => trivial, fun _ _ => trivial⟩

theorem kept_within {name : String} (hm : Kept history area layout known (stack ++ [name]) m) :
    Kept history area layout known stack (Composing.within (stack ++ [name]) m) := by
  intro s hs
  obtain ⟨hs', -⟩ := hm _ (hs.begun (stack ++ [name]))
  exact ⟨hs'.ended, fun _ _ => trivial, fun _ _ => trivial⟩

section Operations

variable {files : Files} (hfiles : files ∈ history) {suite : Reference → Composing (List Case)}

include hfiles

theorem kept_mergeApi (base : Case) (r : Reference) :
    Kept history area layout known stack (mergeApi files base r) := by
  intro s hs
  rw [exec_mergeApi]
  exact ⟨hs.indexed hfiles .api, fun _ _ => trivial, fun _ _ => trivial⟩

theorem kept_expandEntries (hsuite : ∀ r, Kept history area layout known stack (suite r))
    (entries : List Entry) :
    Kept history area layout known stack (expandEntries files suite entries) := by
  induction entries with
  | nil => exact keeps_pure trivial
  | cons entry rest ih =>
    refine Keeps.bind (V := fun _ => True) ?_ fun _ _ => ih.bind fun _ _ => keeps_pure trivial
    cases entry with
    | case c => exact keeps_pure trivial
    | api base r => exact (kept_mergeApi hfiles base r).bind fun _ _ => keeps_pure trivial
    | suite r => exact hsuite r

theorem kept_expandFresh (hsuite : ∀ r, Kept history area layout known stack (suite r))
    (f : Fragment) (body : Value) :
    Kept history area layout known stack (expandFresh files suite f body) :=
  kept_composer.bind fun _ _ => (kept_lift _).bind fun d _ =>
    kept_expandEntries hfiles hsuite d.entries

/-- An expansion is kept only after it succeeded, so it is one that a composer without failures
comes to as well. -/
theorem inserted {r : Reference} {cases : List Case} {s' : Composition}
    (before : Intact history area layout known stack s)
    (after : Intact history area layout known stack s')
    (hrun : s.composer.run (expand files r) = (.ok cases, { s'.composer with
      expanded := s'.composer.expanded.insert r.key cases })) :
    Intact history area layout known stack { s' with
      composer := { s'.composer with expanded := s'.composer.expanded.insert r.key cases } } := by
  have hlocated : Located history area layout { s'.composer with
      expanded := s'.composer.expanded.insert r.key cases } :=
    ⟨after.located.area_eq, after.located.layout_eq, after.located.library⟩
  refine ⟨after.stack_eq, after.suites_eq, hlocated, before.flawless.expanded hfiles hrun, ?_⟩
  intro key cases' hget
  by_cases hkey : r.key = key
  · subst hkey
    have heq := Dict.get?_insert_self s'.composer.expanded r.key cases
    obtain rfl := Option.some.inj (heq.symm.trans hget)
    exact ⟨files, hfiles, s.composer, r, before.flawless, rfl, by rw [hrun]⟩
  · exact after.whole key cases'
      ((Dict.get?_insert_of_ne s'.composer.expanded cases hkey).symm.trans hget)

/-- The induction is on the room. -/
theorem kept_expandSuite {l : Library} {room : ℕ} (hroom : room ≤ l.length) (stack : List String)
    (r : Reference) :
    Kept history area layout (some l) stack (expandSuite files room stack r) := by
  induction room generalizing stack r with
  | zero =>
    intro s hs
    rcases hexec : exec (expandSuite files 0 stack r) s with ⟨result, s'⟩
    refine ⟨?_, fun _ _ => trivial, fun _ _ => trivial⟩
    rcases expandSuite_cases (hs.suites_eq l rfl) hexec with rfl | ⟨inner, _, _, hinner, -⟩
    · exact hs.met r
    · omega
  | succ room ih =>
    intro s hs
    rcases hexec : exec (expandSuite files (room + 1) stack r) s with ⟨result, s'⟩
    refine ⟨?_, fun _ _ => trivial, fun _ _ => trivial⟩
    rcases expandSuite_cases (hs.suites_eq l rfl) hexec with
      rfl | ⟨inner, f, body, hinner, result', s₁, hinside, hback⟩
    · exact hs.met r
    obtain rfl : inner = room := by omega
    have hwithin : Kept history area layout (some l) stack (Composing.within (stack ++ [r.name])
        (expandFresh files (expandSuite files inner (stack ++ [r.name])) f body)) :=
      kept_within (kept_expandFresh hfiles (fun r' => ih (by omega) _ r') f body)
    have hs₁ := (hwithin _ (hs.met r)).1
    rw [hinside] at hs₁
    rcases hback with ⟨e, -, rfl⟩ | ⟨cases, -, rfl, rfl⟩
    · exact hs₁
    · exact hs.inserted hfiles hs₁ (run_expand_of_expandSuite files (hs.suites_eq l rfl) hroom hexec)

/-- Once the suites are read they are known, and there is room for all of them. -/
theorem kept_expand (r : Reference) : Kept history area layout none [] (expand files r) := by
  intro s hs
  have hindexed := hs.indexed hfiles .suite
  rw [expand, exec_bind, exec_library]
  cases hindex : s.composer.index files .suite with
  | error e => exact ⟨hindexed, fun _ _ => trivial, fun _ _ => trivial⟩
  | ok l =>
    have hknow := hindexed.know (library?_indexed hindex)
    exact ⟨(kept_expandSuite hfiles (Nat.le_refl l.length) [] r _ hknow).1.forget,
      fun _ _ => trivial, fun _ _ => trivial⟩

theorem kept_composing (d : Document) : Kept history area layout none [] (composing files d) :=
  (kept_expandEntries hfiles (kept_expand hfiles) d.entries).bind fun _ _ =>
    (kept_lift _).bind fun _ _ => kept_pure _

end Operations

end Intact

/-! ## Requests one after another -/

/-- What a composer can be asked for. -/
inductive Request where
  /-- The testset that a document is composed into. -/
  | testset (d : Document)
  /-- The cases of entries. -/
  | entries (entries : List Entry)
  /-- The cases of a suite. -/
  | suite (r : Reference)
  /-- A case with the execution fields of an api fragment. -/
  | api (base : Case) (r : Reference)

/-- What a composer answers. -/
inductive Answer where
  | testset (t : TestSet)
  | cases (cases : List Case)
  | case (c : Case)

/-- Answer a request. -/
def Request.serve (files : Files) : Request → Composing Answer
  | testset d => return .testset (← composing files d)
  | entries es => return .cases (← expandEntries files (expand files) es)
  | suite r => return .cases (← expand files r)
  | api base r => return .case (← mergeApi files base r)

/-- A request and the files as they are when it is made. -/
structure Demand where
  files : Files
  request : Request

/-- A composer at work, after one more demand; whether it could be met does not matter. -/
def serving (s : Composition) (demand : Demand) : Composition :=
  (exec (demand.request.serve demand.files) s).2

/-- A composer of a dependency area at work, after some demands. -/
def served (area : String) (layout : Layout) (demands : List Demand) : Composition :=
  demands.foldl serving ⟨ofArea area layout, []⟩

section Served

variable {history : List Files} {area : String} {layout : Layout} {files : Files}

theorem kept_serve (hfiles : files ∈ history) (request : Request) :
    Intact.Kept history area layout none [] (request.serve files) := by
  cases request with
  | testset d => exact (Intact.kept_composing hfiles d).bind fun _ _ => Intact.kept_pure _
  | entries es =>
    exact (Intact.kept_expandEntries hfiles (Intact.kept_expand hfiles) es).bind
      fun _ _ => Intact.kept_pure _
  | suite r => exact (Intact.kept_expand hfiles r).bind fun _ _ => Intact.kept_pure _
  | api base r => exact (Intact.kept_mergeApi hfiles base r).bind fun _ _ => Intact.kept_pure _

theorem intact_foldl_serving {demands : List Demand} (hfiles : ∀ d ∈ demands, d.files ∈ history)
    {s : Composition} (hs : Intact history area layout none [] s) :
    Intact history area layout none [] (demands.foldl serving s) := by
  induction demands generalizing s with
  | nil => exact hs
  | cons demand rest ih =>
    obtain ⟨hdemand, hrest⟩ := List.forall_mem_cons.mp hfiles
    exact ih hrest (kept_serve hdemand demand.request s hs).1

theorem intact_served (area : String) (layout : Layout) (demands : List Demand) :
    Intact (demands.map Demand.files) area layout none [] (served area layout demands) :=
  intact_foldl_serving (fun _ hd => List.mem_map_of_mem hd) (Intact.ofArea _ area layout)

/-! ## Files that stay as they are -/

section Unchanged

variable {c : Composer}

/-- Where all files were the same, the fragments that a composer goes by are those in the files. -/
theorem Located.index_eq (h : Located history area layout c) (hsame : ∀ fs ∈ history, fs = files)
    (kind : FragmentKind) : c.index files kind = Expansion.library files area layout kind := by
  cases hl : c.library? kind with
  | none => rw [index, hl, Composer.folder, h.area_eq, h.layout_eq, Expansion.library]
  | some l =>
    obtain ⟨fs, hfs, hread⟩ := h.library kind l hl
    rw [index, hl, ← hsame fs hfs, hread]

theorem Located.merged_eq (h : Located history area layout c) (hsame : ∀ fs ∈ history, fs = files)
    (base : Case) (r : Reference) :
    (c.fieldsFor files r).map (fun fields => fields.overlay base) =
      Expansion.merged files area layout base r :=
  merged_eq_of_index h.area_eq h.layout_eq (h.index_eq hsame .api) base r

end Unchanged

section Sound

variable {P : Reference → Prop}

theorem moves_serve (files : Files) (request : Request) : Moves Grows (request.serve files) := by
  have hentries (es : List Entry) : Moves Grows (expandEntries files (expand files) es) :=
    moves_expandEntries files (moves_expand files) es
  cases request with
  | testset d =>
    refine moves_bind (moves_bind (hentries d.entries) fun _ => ?_) fun _ => moves_pure _
    exact moves_bind (moves_lift _) fun _ => moves_pure _
  | entries es => exact moves_bind (hentries es) fun _ => moves_pure _
  | suite r => exact moves_bind (moves_expand files r) fun _ => moves_pure _
  | api base r => exact moves_bind (moves_mergeApi files base r) fun _ => moves_pure _

theorem sound_serving (hcoherent : Coherent P) (request : Request) {s : Composition}
    (hs : Sound files area layout P s.composer)
    (hmet : ∀ r ∈ met (serving s ⟨files, request⟩), P r) :
    Sound files area layout P (serving s ⟨files, request⟩).composer := by
  have hspec {α : Type} {m : Composing α} {Q : Except Error α → Prop}
      (hm : Spec files area layout P m Q) (f : α → Answer) :
      Spec files area layout P (do return f (← m)) fun _ => True :=
    hm.bind (fun _ => moves_pure _) (fun _ _ => trivial) fun a _ =>
      (spec_pure (f a)).mono fun _ _ => trivial
  cases request with
  | testset d => exact (hspec (spec_composing d hcoherent) .testset s hs hmet).1
  | entries es =>
    have hentries : Spec files area layout P (expandEntries files (expand files) es) _ :=
      spec_expandEntries (moves_expand files) (spec_expand hcoherent)
        (fun _ _ => Expansion.denotes_of_ofSuite) es
    exact (hspec hentries .cases s hs hmet).1
  | suite r => exact (hspec (spec_expand hcoherent r) .cases s hs hmet).1
  | api base r => exact (hspec (spec_mergeApi base r) .case s hs hmet).1

theorem grows_foldl_serving (demands : List Demand) (s : Composition) :
    Grows s (demands.foldl serving s) := by
  induction demands generalizing s with
  | nil => exact List.suffix_refl _
  | cons demand rest ih => exact (moves_serve _ _ s).trans (ih (serving s demand))

/-- What was met before is met by the end, so it is enough that all of that is coherent. -/
theorem sound_foldl_serving (hcoherent : Coherent P) {demands : List Demand}
    (hsame : ∀ d ∈ demands, d.files = files) {s : Composition}
    (hs : Sound files area layout P s.composer) (hmet : ∀ r ∈ met (demands.foldl serving s), P r) :
    Sound files area layout P (demands.foldl serving s).composer := by
  induction demands generalizing s with
  | nil => exact hs
  | cons demand rest ih =>
    obtain ⟨rfl, hrest⟩ := List.forall_mem_cons.mp hsame
    have hserved := sound_serving hcoherent demand.request hs fun r hr =>
      hmet r ((grows_foldl_serving rest (serving s demand)).mem_met hr)
    exact ih hrest hserved hmet

end Sound

/-- A failure leaves no trace in a composer. Whatever demands were made, with files that may change
from one to the next, and whichever of them failed: no suite is still being expanded; the fragments
of each kind were not read, or they are all fragments beneath their folder in files as they once were,
each under its own name; each expansion that is kept is the whole result of one that succeeded; and
the composer is one that might have come about without any failure, so there is nothing about it by
which a failure could show in what it answers next.

If the files stayed as they are, then merging an api fragment does what it does without a composer,
and a suite that can be expanded without one is expanded into the same cases, as long as references
that were met and have the same key have the same arguments. -/
theorem flawless_served (area : String) (layout : Layout) (demands : List Demand) :
    let s := served area layout demands
    let history := demands.map Demand.files
    openSuites s.journal = [] ∧
      (∀ kind, s.composer.library? kind = none ∨ ∃ files ∈ history, ∃ l,
        s.composer.library? kind = some l ∧
          Library.IsIndex files kind layout.depth (layout.folder kind area) l) ∧
      (∀ key cases, s.composer.expanded.get? key = some cases → ∃ files ∈ history, ∃ c r,
        Flawless history area layout c ∧ r.key = key ∧ (c.run (expand files r)).1 = .ok cases) ∧
      Flawless history area layout s.composer ∧
      ∀ files, (∀ demand ∈ demands, demand.files = files) →
        (∀ base r, (exec (mergeApi files base r) s).1 =
          Expansion.merged files area layout base r) ∧
        ∀ r cases, Coherent (· ∈ met (exec (expand files r) s).2) →
          Expansion.ofSuite files area layout [] r = .ok cases →
            (exec (expand files r) s).1 = .ok cases := by
  intro s history
  have hs : Intact history area layout none [] s := intact_served area layout demands
  refine ⟨hs.stack_eq, fun kind => ?_, hs.whole, hs.flawless, fun files hsame => ⟨?_, ?_⟩⟩
  · cases hl : s.composer.library? kind with
    | none => exact .inl rfl
    | some l =>
      obtain ⟨files, hfiles, hread⟩ := hs.located.library kind l hl
      exact .inr ⟨files, hfiles, l, rfl, Library.isIndex_of_read hread⟩
  · intro base r
    have hhistory : ∀ fs ∈ history, fs = files := fun fs hfs => by
      obtain ⟨demand, hdemand, rfl⟩ := List.mem_map.mp hfs
      exact hsame demand hdemand
    rw [exec_mergeApi, hs.located.merged_eq hhistory]
  · intro r cases hcoherent hplain
    have hgrows : Grows s (exec (expand files r) s).2 := moves_expand files r s
    have hsound : Sound files area layout _ s.composer := sound_foldl_serving hcoherent hsame
      sound_ofArea fun r' hr' => hgrows.mem_met hr'
    exact (spec_expand hcoherent r s hsound fun _ hr' => hr').2.complete cases hplain

end Served

/-- A suite that is a case, and one with it in front of a suite that is nowhere. -/
def patchySuites : Files :=
  filesOfSuites [("b.yaml", "broken", "    suite: whole\n- case:\n    suite: gone\n"),
    ("w.yaml", "whole", "    id: A\n    desc: d\n    steps:\n      - click: b\n")]

/-- After the one could not be expanded nothing is being expanded, all that is kept is the whole
expansion of the other, and that one is expanded as if nothing had happened. -/
theorem flawless_served_patchy :
    let broken := Request.suite (referenceTo "broken" [])
    let s := served "dependencies" .standard [⟨patchySuites, broken⟩]
    (exec (broken.serve patchySuites) ⟨ofArea "dependencies" .standard, []⟩).1.map (fun _ => ()) =
        .error (.unresolved "suite" "gone" ["dependencies/suite"]) ∧
      openSuites s.journal = [] ∧ s.composer.expanded.keys = ["whole()"] ∧
      ∃ cases, (exec (expand patchySuites (referenceTo "whole" [])) s).1 = .ok cases ∧
        cases.map Case.id = ["A"] := by
  intro broken s
  obtain ⟨hstack, -, -, -, hunchanged⟩ :=
    flawless_served "dependencies" .standard [⟨patchySuites, broken⟩]
  have hsame : ∀ demand ∈ [Demand.mk patchySuites broken], demand.files = patchySuites := by
    intro demand hdemand
    rw [List.mem_singleton.mp hdemand]
  obtain ⟨hfails, hkeys, hmet, hplain⟩ :
      (exec (broken.serve patchySuites) ⟨ofArea "dependencies" .standard, []⟩).1.map (fun _ => ()) =
          .error (.unresolved "suite" "gone" ["dependencies/suite"]) ∧
        s.composer.expanded.keys = ["whole()"] ∧
        (∀ r ∈ met (exec (expand patchySuites (referenceTo "whole" [])) s).2,
          Expansion.arguments r = []) ∧
        (Expansion.ofSuite patchySuites "dependencies" .standard []
          (referenceTo "whole" [])).map (List.map Case.id) = .ok ["A"] := by decide +kernel
  obtain ⟨cases, hcases, hids⟩ := map_eq_ok.mp hplain
  refine ⟨hfails, hstack, hkeys, cases, ?_, hids⟩
  refine (hunchanged patchySuites hsame).2 _ cases (fun r r' hr hr' _ => ?_) hcases
  exact (hmet r hr).trans (hmet r' hr').symm

end Casebook.Composition
