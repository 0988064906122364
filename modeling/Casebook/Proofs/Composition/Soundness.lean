import Casebook.Proofs.Composition.Expansion
import Casebook.Proofs.Composition.Index

/-!
# Sound composers

A composer is sound if its libraries are those of the files and each expansion it keeps is what some
reference denotes that was met before. Here every operation of a composer is shown to keep it sound,
whether it ends in a value or in an error, and to give what expansion without a composer gives.

Which references were met is told by the journal, which only grows. `Spec P m Q` says of a
computation `m`: from a sound composer, and if all references met by the end of it fulfil `P`, the
composer is sound again and the result fulfils `Q`.
-/

namespace Casebook.Composition

open Casebook.Computation Composer

/-! ## Looking up what is in the files -/

section Lookup

variable {files : Files} {area : String} {layout : Layout} {c : Composer}

/-- A composer that goes by the fragments in the files finds the fragments there. -/
theorem lookup_eq_of_index (harea : c.area = area) (hlayout : c.layout = layout)
    {kind : FragmentKind} (hindex : c.index files kind = Expansion.library files area layout kind)
    (name : String) :
    c.lookup files kind name = Expansion.fragment files area layout kind name := by
  rw [lookup, hindex, Composer.folder, harea, hlayout]
  rfl

theorem merged_eq_of_index (harea : c.area = area) (hlayout : c.layout = layout)
    (hindex : c.index files .api = Expansion.library files area layout .api) (base : Case)
    (r : Reference) :
    (c.fieldsFor files r).map (fun fields => fields.overlay base) =
      Expansion.merged files area layout base r := by
  rw [fieldsFor, Expansion.merged, lookup_eq_of_index harea hlayout hindex, hlayout]
  cases Expansion.fragment files area layout .api r.name with
  | error e => rfl
  | ok f =>
    simp only [ok_bind]
    cases f.instantiate r with
    | error e => rfl
    | ok body => rfl

end Lookup

/-! ## What an expansion does -/

/-- The cases of a suite that was not expanded before under the key of a reference. -/
def expandUncached (files : Files) :
    ℕ → List String → Reference → Fragment → Value → Composing (List Case)
  | 0, stack, r, _, _ => throw (chain stack r)
  | room + 1, stack, r, f, body => do
    let cases ← Composing.within (stack ++ [r.name])
      (expandFresh files (expandSuite files room (stack ++ [r.name])) f body)
    Composing.update fun c => { c with expanded := c.expanded.insert r.key cases }
    return cases

/-- The cases of a suite, looked for among those that were expanded before. -/
def expandOpened (files : Files) (room : ℕ) (stack : List String) (r : Reference) (f : Fragment)
    (body : Value) : Composing (List Case) := do
  match (← Composing.composer).expanded.get? r.key with
  | some cases => return cases
  | none => expandUncached files room stack r f body

/-- The cases of a suite that is not being expanded. -/
def expandNew (files : Files) (room : ℕ) (stack : List String) (r : Reference) :
    Composing (List Case) := do
  let f ← Composer.fragment files .suite r.name
  let body ← Composing.lift (f.instantiate r)
  expandOpened files room stack r f body

theorem expandSuite_eq (files : Files) (room : ℕ) (stack : List String) (r : Reference) :
    expandSuite files room stack r = (do
      Composing.note (.met r)
      if r.name ∈ stack then throw (chain stack r) else expandNew files room stack r) := by
  by_cases hstack : r.name ∈ stack
  · cases room <;> unfold expandSuite <;> simp only [hstack, if_true] <;> rfl
  · cases room <;> unfold expandSuite <;> simp only [hstack, if_false] <;> rfl

/-! ## What was met -/

/-- The reference that was met in an event. -/
def metIn : SuiteEvent → Option Reference
  | .met r => some r
  | _ => none

/-- The references to suites that were met so far, the latest first. -/
def met (s : Composition) : List Reference :=
  s.journal.filterMap metIn

/-! ## Frames -/

/-- A relation between states that holds across all that reading fragments does to a state. -/
class IsReadingFrame (R : Composition → Composition → Prop) : Prop extends
    Std.Refl R, IsTrans Composition R where
  note (e : SuiteEvent) (s : Composition) : R s { s with journal := e :: s.journal }
  keep (kind : FragmentKind) (l : Library) (s : Composition) :
    R s { s with composer := s.composer.keep kind l }

/-- A relation between states that holds across all that composing does to a state. -/
class IsFrame (R : Composition → Composition → Prop) : Prop extends IsReadingFrame R where
  insert (key : String) (cases : List Case) (s : Composition) :
    R s { s with composer :=
      { s.composer with expanded := s.composer.expanded.insert key cases } }

section Frames

variable {α : Type} {R : Composition → Composition → Prop}

section Reading

variable [IsReadingFrame R]

theorem moves_lift (result : Except Error α) : Moves R (Composing.lift result) :=
  fun s => Std.Refl.refl s

theorem moves_composer : Moves R Composing.composer :=
  fun s => Std.Refl.refl s

theorem moves_note (e : SuiteEvent) : Moves R (Composing.note e) :=
  moves_modify (IsReadingFrame.note e)

theorem moves_within {m : Composing α} (hm : Moves R m) (stack : List String) :
    Moves R (Composing.within stack m) :=
  moves_bind (moves_note _) fun _ => moves_bind (show Moves R m.outcome from hm) fun result =>
    moves_bind (moves_note _) fun _ => moves_lift result

variable (files : Files)

/-- What is read is kept, or nothing is read. -/
theorem frame_indexed (kind : FragmentKind) (s : Composition) :
    R s { s with composer := s.composer.indexed files kind } := by
  unfold indexed
  split
  · exact IsReadingFrame.keep kind _ s
  · exact Std.Refl.refl s

theorem moves_library (kind : FragmentKind) : Moves R (Composer.library files kind) := by
  intro s
  rw [exec_library]
  exact frame_indexed files kind s

theorem moves_fragment (kind : FragmentKind) (name : String) :
    Moves R (Composer.fragment files kind name) := by
  intro s
  rw [exec_fragment]
  exact frame_indexed files kind s

theorem moves_mergeApi (base : Case) (r : Reference) : Moves R (mergeApi files base r) := by
  intro s
  rw [exec_mergeApi]
  exact frame_indexed files .api s

theorem moves_expandEntries {suite : Reference → Composing (List Case)}
    (hsuite : ∀ r, Moves R (suite r)) (entries : List Entry) :
    Moves R (expandEntries files suite entries) := by
  induction entries with
  | nil => exact moves_pure _
  | cons entry rest ih =>
    refine moves_bind ?_ fun _ => moves_bind ih fun _ => moves_pure _
    cases entry with
    | case c => exact moves_pure _
    | api base r => exact moves_bind (moves_mergeApi files base r) fun _ => moves_pure _
    | suite r => exact hsuite r

theorem moves_expandFresh {suite : Reference → Composing (List Case)}
    (hsuite : ∀ r, Moves R (suite r)) (f : Fragment) (body : Value) :
    Moves R (expandFresh files suite f body) :=
  moves_bind moves_composer fun _ => moves_bind (moves_lift _) fun d =>
    moves_expandEntries files hsuite d.entries

variable {room : ℕ} {stack : List String} {r : Reference}

theorem moves_expandOpened
    (h : ∀ f body, Moves R (expandUncached files room stack r f body))
    (f : Fragment) (body : Value) : Moves R (expandOpened files room stack r f body) := by
  refine moves_bind moves_composer fun c => ?_
  cases c.expanded.get? r.key with
  | some cases => exact moves_pure cases
  | none => exact h f body

theorem moves_expandNew (h : ∀ f body, Moves R (expandUncached files room stack r f body)) :
    Moves R (expandNew files room stack r) :=
  moves_bind (moves_fragment files _ _) fun f => moves_bind (moves_lift _) fun body =>
    moves_expandOpened files h f body

theorem moves_expandSuite_of_uncached
    (h : ∀ f body, Moves R (expandUncached files room stack r f body)) :
    Moves R (expandSuite files room stack r) := by
  rw [expandSuite_eq]
  refine moves_bind (moves_note _) fun _ => ?_
  split
  · exact moves_throw _
  · exact moves_expandNew files h

end Reading

section Expanding

variable [IsFrame R]

theorem moves_insert (key : String) (cases : List Case) :
    Moves R (Composing.update fun c => { c with expanded := c.expanded.insert key cases }) :=
  moves_modify (IsFrame.insert key cases)

variable (files : Files) (room : ℕ) (stack : List String) (r : Reference)

theorem moves_expandUncached (f : Fragment) (body : Value) :
    Moves R (expandUncached files room stack r f body) := by
  induction room generalizing stack r f body with
  | zero => exact moves_throw _
  | succ room ih =>
    have hsuite r' := moves_expandSuite_of_uncached files (ih (stack ++ [r.name]) r')
    exact moves_bind (moves_within (moves_expandFresh files hsuite f body) _) fun _ =>
      moves_bind (moves_insert _ _) fun _ => moves_pure _

theorem moves_expandSuite : Moves R (expandSuite files room stack r) :=
  moves_expandSuite_of_uncached files (moves_expandUncached files room stack r)

theorem moves_expand : Moves R (expand files r) :=
  moves_bind (moves_library files _) fun _ => moves_expandSuite files _ _ r

end Expanding

end Frames

/-! ## The journal grows -/

/-- The journal of one state goes on in another. -/
def Grows (s s' : Composition) : Prop :=
  s.journal <:+ s'.journal

instance : IsFrame Grows where
  refl s := List.suffix_refl s.journal
  trans _ _ _ h h' := List.IsSuffix.trans h h'
  note e s := List.suffix_cons e s.journal
  keep _ _ s := List.suffix_refl s.journal
  insert _ _ s := List.suffix_refl s.journal

theorem Grows.mem_met {s s' : Composition} (h : Grows s s') {r : Reference} (hr : r ∈ met s) :
    r ∈ met s' :=
  (h.filterMap metIn).subset hr

theorem grows_bind {α β : Type} {m : Composing α} {f : α → Composing β}
    (hf : ∀ a, Moves Grows (f a)) (s : Composition) : Grows (exec m s).2 (exec (m >>= f) s).2 := by
  rw [exec_bind]
  rcases exec m s with ⟨e | a, s₁⟩
  · exact List.suffix_refl _
  · exact hf a s₁

/-! ## Soundness as a specification -/

/-- References with the same key that fulfil a property have the same arguments. -/
def Coherent (P : Reference → Prop) : Prop :=
  ∀ r r', P r → P r' → r.key = r'.key → Expansion.arguments r = Expansion.arguments r'

section Sound

variable (files : Files) (area : String) (layout : Layout) (P : Reference → Prop)

/-- All that a composer keeps is what the files say, its expansions for references that fulfil a
property. -/
structure Sound (c : Composer) : Prop where
  area_eq : c.area = area
  layout_eq : c.layout = layout
  library : ∀ kind l, c.library? kind = some l → Expansion.library files area layout kind = .ok l
  expanded : ∀ key cases, c.expanded.get? key = some cases →
    ∃ r, P r ∧ r.key = key ∧ Expansion.Denotes files area layout [.suite r] cases

/-- From a sound composer, a computation that meets references which fulfil a property leaves a
sound composer and gives such a result. -/
def Spec {α : Type} (m : Composing α) (Q : Except Error α → Prop) : Prop :=
  ∀ s, Sound files area layout P s.composer → (∀ r ∈ met (exec m s).2, P r) →
    Sound files area layout P (exec m s).2.composer ∧ Q (exec m s).1

variable {files area layout P} {α β : Type}

theorem sound_ofArea : Sound files area layout P (ofArea area layout) where
  area_eq := rfl
  layout_eq := rfl
  library kind l h := by cases kind <;> cases h
  expanded key cases h := by cases h

/-- A composer goes by the fragments in the files: a library that was read before is the one that
would be read now. -/
theorem Sound.index_eq {c : Composer} (hc : Sound files area layout P c) (kind : FragmentKind) :
    c.index files kind = Expansion.library files area layout kind := by
  cases hl : c.library? kind with
  | some l => rw [index, hl, hc.library kind l hl]
  | none => rw [index, hl, Composer.folder, hc.area_eq, hc.layout_eq, Expansion.library]

theorem Sound.indexed {c : Composer} (hc : Sound files area layout P c) (kind : FragmentKind) :
    Sound files area layout P (c.indexed files kind) := by
  cases hindex : c.index files kind with
  | error e =>
    rw [indexed_of_error hindex]
    exact hc
  | ok l =>
    rw [indexed_of_ok hindex]
    refine ⟨by rw [area_keep, hc.area_eq], by rw [layout_keep, hc.layout_eq], ?_, ?_⟩
    · intro kind' l' hl'
      by_cases hkind : kind = kind'
      · subst hkind
        rw [library?_keep] at hl'
        rw [← Option.some.inj hl', ← hc.index_eq, hindex]
      · rw [library?_keep_of_ne hkind] at hl'
        exact hc.library kind' l' hl'
    · rw [expanded_keep]
      exact hc.expanded

theorem Sound.insert {c : Composer} (hc : Sound files area layout P c) {r : Reference}
    {cases : List Case} (hr : P r) (h : Expansion.Denotes files area layout [.suite r] cases) :
    Sound files area layout P { c with expanded := c.expanded.insert r.key cases } := by
  refine ⟨hc.area_eq, hc.layout_eq, hc.library, fun key cases' h' => ?_⟩
  -- Under the key of the reference now stands its own expansion; other keys keep theirs.
  by_cases hkey : r.key = key
  · subst hkey
    rw [Dict.get?_insert_self] at h'
    cases h'
    exact ⟨r, hr, rfl, h⟩
  · rw [Dict.get?_insert_of_ne _ _ hkey] at h'
    exact hc.expanded key cases' h'

/-! ## Rules of specifications -/

variable {m : Composing α} {f : α → Composing β}

theorem Spec.mono {Q Q' : Except Error α → Prop} (hm : Spec files area layout P m Q)
    (h : ∀ result, Q result → Q' result) : Spec files area layout P m Q' :=
  fun s hs hmet => ⟨(hm s hs hmet).1, h _ (hm s hs hmet).2⟩

theorem spec_lift (result : Except Error α) :
    Spec files area layout P (Composing.lift result) (· = result) :=
  fun _ hs _ => ⟨hs, rfl⟩

theorem spec_pure (a : α) : Spec files area layout P (pure a) (· = .ok a) :=
  spec_lift (.ok a)

theorem spec_throw (e : Error) :
    Spec files area layout P (throw e : Composing α) (· = .error e) :=
  spec_lift (.error e)

/-- The composer that a computation looks at is sound. -/
theorem spec_composer :
    Spec files area layout P Composing.composer fun result =>
      ∃ c, result = .ok c ∧ Sound files area layout P c :=
  fun s hs _ => ⟨hs, s.composer, rfl, hs⟩

theorem spec_update {g : Composer → Composer}
    (hg : ∀ c, Sound files area layout P c → Sound files area layout P (g c)) :
    Spec files area layout P (Composing.update g) (· = .ok ()) :=
  fun s hs _ => ⟨hg s.composer hs, rfl⟩

/-- A reference that is met fulfils the property. -/
theorem spec_met (r : Reference) :
    Spec files area layout P (Composing.note (.met r)) fun result => result = .ok () ∧ P r :=
  fun _ hs hmet => ⟨hs, rfl, hmet r List.mem_cons_self⟩

/-- The references met by the first of two computations were met by the end of both. -/
theorem Spec.bind {Q : Except Error α → Prop} {Q' : Except Error β → Prop}
    (hm : Spec files area layout P m Q) (hgrows : ∀ a, Moves Grows (f a))
    (herror : ∀ e, Q (.error e) → Q' (.error e))
    (hok : ∀ a, Q (.ok a) → Spec files area layout P (f a) Q') :
    Spec files area layout P (m >>= f) Q' := by
  intro s hs hmet
  have hfirst := hm s hs
  rw [exec_bind] at hmet ⊢
  rcases hrun : exec m s with ⟨e | a, s₁⟩ <;> rw [hrun] at hmet hfirst
  · obtain ⟨hs₁, hQ⟩ := hfirst hmet
    exact ⟨hs₁, herror e hQ⟩
  · obtain ⟨hs₁, hQ⟩ := hfirst fun r hr => hmet r ((hgrows a s₁).mem_met hr)
    exact hok a hQ s₁ hs₁ hmet

/-- Two computations one after another give what their plain counterparts give. -/
theorem Spec.bind_eq {x : Except Error α} {g : α → Except Error β}
    (hm : Spec files area layout P m (· = x)) (hgrows : ∀ a, Moves Grows (f a))
    (hok : ∀ a, x = .ok a → Spec files area layout P (f a) (· = g a)) :
    Spec files area layout P (m >>= f) (· = x >>= g) := by
  refine hm.bind hgrows ?_ ?_
  · intro e heq
    subst heq
    rfl
  · intro a heq
    subst heq
    exact hok a rfl

/-- What is noted around a computation tells of no reference. -/
theorem Spec.within {Q : Except Error α → Prop} (hm : Spec files area layout P m Q)
    (stack : List String) : Spec files area layout P (Composing.within stack m) Q :=
  fun s hs hmet => hm { s with journal := .begun stack :: s.journal } hs hmet

end Sound

/-! ## Operations of a composer -/

section Operations

variable {files : Files} {area : String} {layout : Layout} {P : Reference → Prop}

/-- The layout that a computation looks at is the one of the composer. -/
theorem spec_bind_composer {α : Type} {f : Composer → Composing α} {Q : Except Error α → Prop}
    (hgrows : ∀ c, Moves Grows (f c))
    (hf : ∀ c, Sound files area layout P c → Spec files area layout P (f c) Q) :
    Spec files area layout P (Composing.composer >>= f) Q := by
  refine spec_composer.bind hgrows ?_ ?_
  · intro e h'
    obtain ⟨c, h, -⟩ := h'
    cases h
  · intro c h'
    obtain ⟨_, h, hc⟩ := h'
    cases h
    exact hf c hc

theorem spec_library (kind : FragmentKind) :
    Spec files area layout P (Composer.library files kind)
      (· = Expansion.library files area layout kind) := by
  intro s hs _
  rw [exec_library]
  exact ⟨hs.indexed kind, hs.index_eq kind⟩

theorem spec_fragment (kind : FragmentKind) (name : String) :
    Spec files area layout P (Composer.fragment files kind name)
      (· = Expansion.fragment files area layout kind name) := by
  intro s hs _
  rw [exec_fragment]
  exact ⟨hs.indexed kind, lookup_eq_of_index hs.area_eq hs.layout_eq (hs.index_eq kind) name⟩

theorem spec_mergeApi (base : Case) (r : Reference) :
    Spec files area layout P (mergeApi files base r)
      (· = Expansion.merged files area layout base r) := by
  intro s hs _
  rw [exec_mergeApi]
  exact ⟨hs.indexed .api, merged_eq_of_index hs.area_eq hs.layout_eq (hs.index_eq .api) base r⟩

/-! ## Expansion -/

/-- A result is none but cases that entries denote, and it is what plain expansion gives if that
gives cases. -/
structure Refines (files : Files) (area : String) (layout : Layout) (entries : List Entry)
    (plain result : Except Error (List Case)) : Prop where
  denoted : ∀ cases, result = .ok cases → Expansion.Denotes files area layout entries cases
  complete : ∀ cases, plain = .ok cases → result = .ok cases

theorem Refines.of_denotes {entries : List Entry} {plain : Except Error (List Case)}
    {cases : List Case} (h : Expansion.Denotes files area layout entries cases)
    (hplain : ∀ cases, plain = .ok cases → Expansion.Denotes files area layout entries cases) :
    Refines files area layout entries plain (.ok cases) := by
  refine ⟨fun cases' h' => ?_, fun cases' h' => ?_⟩
  · cases h'
    exact h
  · rw [h.unique (hplain cases' h')]

theorem Refines.of_error {entries : List Entry} {plain : Except Error (List Case)} {e : Error}
    (hplain : ∀ cases, plain ≠ .ok cases) :
    Refines files area layout entries plain (.error e) := by
  refine ⟨fun cases h => ?_, fun cases h => absurd h (hplain cases)⟩
  cases h

section Entries

variable {suite : Reference → Composing (List Case)} {plain : Reference → Except Error (List Case)}

theorem spec_expandEntry
    (hsuite : ∀ r, Spec files area layout P (suite r)
      (Refines files area layout [.suite r] (plain r)))
    (hplain : ∀ r cases, plain r = .ok cases →
      Expansion.Denotes files area layout [.suite r] cases)
    (entry : Entry) :
    Spec files area layout P (expandEntry files suite entry)
      (Refines files area layout [entry]
        (Expansion.ofEntries files area layout plain [entry])) := by
  have hdenotes cases (h : Expansion.ofEntries files area layout plain [entry] = .ok cases) :=
    Expansion.denotes_of_ofEntries hplain h
  cases entry with
  | case c =>
    refine (spec_pure [c]).mono ?_
    intro _ heq
    subst heq
    exact .of_denotes (.case .nil) hdenotes
  | api base r =>
    refine (spec_mergeApi base r).bind (fun _ => moves_pure _) ?_ ?_
    · intro e h
      refine .of_error fun cases h' => ?_
      obtain ⟨c, hc, -⟩ := bind_eq_ok.mp h'
      cases h.trans hc
    · intro c hc
      refine (spec_pure [c]).mono ?_
      intro _ heq
      subst heq
      exact .of_denotes (.api hc.symm .nil) hdenotes
  | suite r =>
    -- The cases of the suite are put in its place, with nothing behind them.
    refine (hsuite r).mono fun result h => ⟨h.denoted, fun cases h' => ?_⟩
    obtain ⟨first, hfirst, h'⟩ := bind_eq_ok.mp h'
    cases h'
    rw [List.append_nil]
    exact h.complete first hfirst

theorem spec_expandEntries (hgrows : ∀ r, Moves Grows (suite r))
    (hsuite : ∀ r, Spec files area layout P (suite r)
      (Refines files area layout [.suite r] (plain r)))
    (hplain : ∀ r cases, plain r = .ok cases →
      Expansion.Denotes files area layout [.suite r] cases)
    (entries : List Entry) :
    Spec files area layout P (expandEntries files suite entries)
      (Refines files area layout entries
        (Expansion.ofEntries files area layout plain entries)) := by
  induction entries with
  | nil =>
    refine (spec_pure []).mono ?_
    intro _ heq
    subst heq
    exact .of_denotes .nil fun cases h => Expansion.denotes_of_ofEntries hplain h
  | cons entry rest ih =>
    have hplain cases
        (h : Expansion.ofEntries files area layout plain (entry :: rest) = .ok cases) :=
      Expansion.denotes_of_ofEntries hplain h
    refine (spec_expandEntry hsuite ‹_› entry).bind (fun _ =>
      moves_bind (moves_expandEntries files hgrows rest) fun _ => moves_pure _) ?_ ?_
    · -- If the first entry fails, plain expansion of all of them fails.
      intro e h
      refine .of_error fun cases h' => ?_
      obtain ⟨first, more, hfirst, -⟩ := Expansion.ofEntries_cons_eq_ok.mp h'
      cases h.complete first hfirst
    · intro first hfirst
      refine ih.bind (fun _ => moves_pure _) ?_ ?_
      · intro e h
        refine .of_error fun cases h' => ?_
        obtain ⟨_, more, -, hmore, -⟩ := Expansion.ofEntries_cons_eq_ok.mp h'
        cases h.complete more hmore
      · intro more hmore
        refine (spec_pure (first ++ more)).mono ?_
        intro _ heq
        subst heq
        exact .of_denotes ((hfirst.denoted first rfl).append (hmore.denoted more rfl)) hplain

end Entries

section Suite

variable {path : List String} {r : Reference} {f : Fragment} {body : Value}

theorem document_eq (hf : Expansion.fragment files area layout .suite r.name = .ok f)
    (hbody : f.instantiate r = .ok body) :
    Expansion.document files area layout r = Document.parse f.path layout.depth body := by
  simp only [Expansion.document, hf, hbody, bind, Except.bind]

/-- What is kept under the key of a coherent reference is what the reference denotes. -/
theorem Sound.denotes_of_get? {c : Composer} (hc : Sound files area layout P c)
    (hcoherent : Coherent P) (hr : P r) {cases : List Case}
    (h : c.expanded.get? r.key = some cases) :
    Expansion.Denotes files area layout [.suite r] cases := by
  -- The cases were kept for a reference with the same key, and so with the same arguments.
  obtain ⟨r', hr', hkey, hdenotes⟩ := hc.expanded r.key cases h
  have hargs := hcoherent r' r hr' hr hkey
  have hname := Expansion.name_eq_of_key_eq hkey hargs
  rw [Expansion.denotes_suite_iff] at hdenotes ⊢
  rwa [← Expansion.document_congr hname hargs]

theorem spec_expandFresh {suite : Reference → Composing (List Case)}
    (hf : Expansion.fragment files area layout .suite r.name = .ok f)
    (hbody : f.instantiate r = .ok body) (hgrows : ∀ r, Moves Grows (suite r))
    (hsuite : ∀ r', Spec files area layout P (suite r') (Refines files area layout [.suite r']
      (Expansion.ofSuite files area layout (path ++ [r.name]) r'))) :
    Spec files area layout P (expandFresh files suite f body)
      (Refines files area layout [.suite r] (Expansion.ofSuite files area layout path r)) := by
  refine spec_bind_composer (fun c => moves_bind (moves_lift _) fun d =>
    moves_expandEntries files hgrows d.entries) fun c hc => ?_
  simp only [hc.layout_eq, ← document_eq hf hbody]
  refine (spec_lift _).bind (fun d => moves_expandEntries files hgrows d.entries) ?_ ?_
  · intro e he
    refine .of_error fun cases h => ?_
    obtain ⟨-, d, hd, -⟩ := Expansion.ofSuite_eq_ok.mp h
    cases he.trans hd
  · intro d hd
    refine (spec_expandEntries hgrows hsuite (fun _ _ => Expansion.denotes_of_ofSuite)
      d.entries).mono fun result h => ⟨fun cases hcases => ?_, fun cases hcases => ?_⟩
    · exact Expansion.denotes_suite_iff.mpr ⟨d, hd.symm, h.denoted cases hcases⟩
    · obtain ⟨-, d', hd', hcases⟩ := Expansion.ofSuite_eq_ok.mp hcases
      cases hd.trans hd'
      exact h.complete cases hcases

theorem spec_expandOpened (hcoherent : Coherent P) (hr : P r) {room : ℕ}
    (huncached : Spec files area layout P (expandUncached files room path r f body)
      (Refines files area layout [.suite r] (Expansion.ofSuite files area layout path r))) :
    Spec files area layout P (expandOpened files room path r f body)
      (Refines files area layout [.suite r] (Expansion.ofSuite files area layout path r)) := by
  refine spec_bind_composer (fun c => ?_) fun c hc => ?_
  · cases c.expanded.get? r.key with
    | some cases => exact moves_pure cases
    | none => exact moves_expandUncached files room path r f body
  cases hcases : c.expanded.get? r.key with
  | none => exact huncached
  | some cases =>
    refine (spec_pure cases).mono ?_
    intro _ heq
    subst heq
    exact .of_denotes (hc.denotes_of_get? hcoherent hr hcases)
      fun _ => Expansion.denotes_of_ofSuite

theorem spec_expandNew (hcoherent : Coherent P) (hr : P r) {room : ℕ}
    (huncached : ∀ f body, Expansion.fragment files area layout .suite r.name = .ok f →
      f.instantiate r = .ok body →
        Spec files area layout P (expandUncached files room path r f body)
          (Refines files area layout [.suite r] (Expansion.ofSuite files area layout path r))) :
    Spec files area layout P (expandNew files room path r)
      (Refines files area layout [.suite r] (Expansion.ofSuite files area layout path r)) := by
  have hgrows (f : Fragment) (body : Value) :
      Moves Grows (expandOpened files room path r f body) :=
    moves_expandOpened files (moves_expandUncached files room path r) f body
  have hnone {e : Error} (h : Except.error e = Expansion.document files area layout r) :
      Refines files area layout [.suite r] (Expansion.ofSuite files area layout path r)
        (.error e) := by
    refine .of_error fun cases hcases => ?_
    obtain ⟨-, d, hd, -⟩ := Expansion.ofSuite_eq_ok.mp hcases
    cases h.trans hd
  refine (spec_fragment .suite r.name).bind
    (fun f => moves_bind (moves_lift _) fun body => hgrows f body) ?_ ?_
  · intro e he
    refine hnone ?_
    simp only [Expansion.document, ← he, bind, Except.bind]
  intro f hf
  refine (spec_lift _).bind (hgrows f) ?_ ?_
  · intro e he
    refine hnone ?_
    simp only [Expansion.document, ← hf, ← he, bind, Except.bind]
  intro body hbody
  exact spec_expandOpened hcoherent hr (huncached f body hf.symm hbody.symm)

/-- The induction is on the room: each suite that is expanded takes one of the free names. -/
theorem spec_expandSuite (hcoherent : Coherent P) (room : ℕ) (path : List String) (r : Reference)
    (hroom : (Expansion.freeNames files area layout path).length ≤ room) :
    Spec files area layout P (expandSuite files room path r)
      (Refines files area layout [.suite r] (Expansion.ofSuite files area layout path r)) := by
  induction room using Nat.strongRecOn generalizing path r with
  | ind room ih =>
  rw [expandSuite_eq]
  refine (spec_met r).bind (fun _ => ?_) ?_ ?_
  · split
    · exact moves_throw _
    · exact moves_expandNew files (moves_expandUncached files room path r)
  · intro e h'
    obtain ⟨h, -⟩ := h'
    cases h
  intro _ h'
  obtain ⟨-, hr⟩ := h'
  -- A name that is on the path is an error for plain expansion as well.
  by_cases hpath : r.name ∈ path
  · rw [if_pos hpath]
    refine (spec_throw _).mono ?_
    intro _ heq
    subst heq
    exact .of_error fun cases hcases => (Expansion.ofSuite_eq_ok.mp hcases).1 hpath
  rw [if_neg hpath]
  refine spec_expandNew hcoherent hr fun f body hf hbody => ?_
  -- The name is free and taken from here on, so there is room for what is inside.
  have hlt := Expansion.length_freeNames_lt hpath hf
  cases room with
  | zero => omega
  | succ room =>
    refine ((spec_expandFresh hf hbody (moves_expandSuite files room _)
      fun r' => ih room (by omega) _ r' (by omega)).within _).bind
      (fun _ => moves_bind (moves_insert _ _) fun _ => moves_pure _) (fun e h => h) ?_
    -- Only now, after it succeeded, the expansion is kept.
    intro cases hcases
    refine (spec_update fun c hc => hc.insert hr (hcases.denoted cases rfl)).bind
      (fun _ => moves_pure _) ?_ ?_
    · intro e h
      cases h
    · intro _ _
      refine (spec_pure cases).mono ?_
      intro _ heq
      subst heq
      exact hcases

end Suite

/-- A suite expands to what it stands for outside of any other. -/
theorem spec_expand (hcoherent : Coherent P) (r : Reference) :
    Spec files area layout P (expand files r)
      (Refines files area layout [.suite r] (Expansion.ofSuite files area layout [] r)) := by
  refine (spec_library .suite).bind (fun l => moves_expandSuite files _ [] r) ?_ ?_
  · intro e he
    refine .of_error fun cases hcases => ?_
    obtain ⟨-, d, hd, -⟩ := Expansion.ofSuite_eq_ok.mp hcases
    obtain ⟨f, hf⟩ := Expansion.fragment_of_document hd
    obtain ⟨l, hl, -⟩ := Expansion.exists_library_of_fragment hf
    cases he.trans hl
  · intro l hl
    refine spec_expandSuite hcoherent l.length [] r ?_
    exact Nat.le_of_eq (Expansion.length_freeNames_nil hl.symm)

variable (d : Document)

/-- A document is composed into the valid cases that plain expansion gives, if it gives some. -/
theorem spec_composing (hcoherent : Coherent P) :
    Spec files area layout P (composing files d) fun result => ∀ cases,
      Expansion.ofEntries files area layout (Expansion.ofSuite files area layout []) d.entries =
        .ok cases → Case.validate cases = .ok () →
          result = .ok { path := d.path, project := d.project, cases } := by
  refine (spec_expandEntries (moves_expand files) (spec_expand hcoherent)
    (fun _ _ => Expansion.denotes_of_ofSuite) d.entries).bind (fun cases =>
      moves_bind (moves_lift _) fun _ => moves_pure _) ?_ ?_
  · intro e he cases hcases _
    cases he.complete cases hcases
  · intro cases hrefines
    refine (spec_lift (Case.validate cases)).bind (fun _ => moves_pure _) ?_ ?_
    · intro e he cases' hcases hvalid
      cases hrefines.complete cases' hcases
      cases he.trans hvalid
    · intro _ _
      refine (spec_pure _).mono ?_
      intro _ heq cases' hcases _
      subst heq
      cases hrefines.complete cases' hcases
      rfl

end Operations

/-! ## Runs of a composer -/

section Runs

variable (files : Files) (area : String) (layout : Layout)

/-- The references to suites that a composer meets in a computation. -/
def metBy {α : Type} (c : Composer) (action : Composing α) : List Reference :=
  met (exec action ⟨c, []⟩).2

/-- The composers of a dependency area that come about by composing documents and expanding suites,
be it with an error, and the references that were met on the way. -/
inductive Reached : List Reference → Composer → Prop where
  | fresh : Reached [] (ofArea area layout)
  | composed {refs : List Reference} {c : Composer} (d : Document) (before : Reached refs c) :
      Reached (metBy c (composing files d) ++ refs) (c.compose files d).2
  | expanded {refs : List Reference} {c : Composer} (r : Reference) (before : Reached refs c) :
      Reached (metBy c (expand files r) ++ refs) (c.run (expand files r)).2

variable {files area layout} {refs : List Reference} {c : Composer}

/-- Every composer that is reached is sound, as long as the references that were met on the way are
coherent. -/
theorem Reached.sound (h : Reached files area layout refs c) {P : Reference → Prop}
    (hcoherent : Coherent P) (hrefs : ∀ r ∈ refs, P r) : Sound files area layout P c := by
  induction h with
  | fresh => exact sound_ofArea
  | composed d _ ih =>
    have hbefore := ih fun r hr => hrefs r (List.mem_append_right _ hr)
    exact (spec_composing d hcoherent ⟨_, []⟩ hbefore
      fun r hr => hrefs r (List.mem_append_left _ hr)).1
  | expanded r _ ih =>
    have hbefore := ih fun r hr => hrefs r (List.mem_append_right _ hr)
    exact (spec_expand hcoherent r ⟨_, []⟩ hbefore
      fun r hr => hrefs r (List.mem_append_left _ hr)).1

/-- Composing refines plain expansion: whatever a composer was used for before, it composes a
document into the cases that the recursion without libraries and cache gives, if that gives valid
cases and no two references that were met have the same key and different arguments. -/
theorem compose_eq_ok (reached : Reached files area layout refs c) (d : Document)
    (coherent : Coherent (· ∈ metBy c (composing files d) ++ refs)) {cases : List Case}
    (plain : Expansion.ofEntries files area layout (Expansion.ofSuite files area layout [])
      d.entries = .ok cases) (valid : Case.validate cases = .ok ()) :
    (c.compose files d).1 = .ok { path := d.path, project := d.project, cases } := by
  have hsound := reached.sound coherent fun r hr => List.mem_append_right _ hr
  exact (spec_composing d coherent ⟨c, []⟩ hsound fun r hr => List.mem_append_left _ hr).2
    cases plain valid

end Runs

/-- Files with a suite of one case, whose id is built from the parameter of the suite. -/
def suiteFiles : Files where
  here := []
  root := .folder [("dependencies", .folder [("suite", .folder [("s.yaml", .file (some
    ("- project:\n    def: s($n)\n"
      ++ "- case:\n    id: S$n\n    desc: d\n    steps:\n      - click: b\n")))])])]

/-- A document that refers to the suite with some arguments. -/
def suiteDocument (args : List String) : Document where
  path := "t.yaml"
  project := .ofPath "t.yaml"
  entries := args.map fun a => .suite ⟨.suite, ⟨"s", [.literal none (.string a) a]⟩, s!"s({a})"⟩

/-- A composer that expanded a suite for one document takes those cases for the next. -/
theorem compose_eq_ok_of_suiteDocument :
    ∃ cases : List Case, cases.map (·.id) = ["S1", "S2"] ∧
      (((ofArea "dependencies" .standard).compose suiteFiles (suiteDocument ["1"])).2.compose
        suiteFiles (suiteDocument ["1", "2"])).1 =
          .ok { path := "t.yaml", project := .ofPath "t.yaml", cases } := by
  let before := ofArea "dependencies" .standard
  let refs := metBy (before.compose suiteFiles (suiteDocument ["1"])).2
    (composing suiteFiles (suiteDocument ["1", "2"])) ++
      (metBy before (composing suiteFiles (suiteDocument ["1"])) ++ [])
  have hplain : (Expansion.ofEntries suiteFiles "dependencies" .standard
      (Expansion.ofSuite suiteFiles "dependencies" .standard [])
        (suiteDocument ["1", "2"]).entries >>= fun cases => do
      Case.validate cases
      return cases.map (·.id)) = .ok ["S1", "S2"] := by decide +kernel
  have hcoherent : ∀ r ∈ refs, ∀ r' ∈ refs, r.key = r'.key →
      Expansion.arguments r = Expansion.arguments r' := by decide +kernel
  obtain ⟨cases, hcases, hrest⟩ := bind_eq_ok.mp hplain
  obtain ⟨_, hvalid, hids⟩ := bind_eq_ok.mp hrest
  refine ⟨cases, Except.ok.inj hids, ?_⟩
  exact compose_eq_ok (.composed (suiteDocument ["1"]) .fresh) (suiteDocument ["1", "2"])
    (fun r r' hr hr' => hcoherent r hr r' hr') hcases hvalid

end Casebook.Composition
