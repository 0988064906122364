import Casebook.Proofs.Composition.Soundness

/-!
# Closed composers

Once a suite is expanded, its expansion is kept, and so are those of all suites in it, at every depth.
So whatever a composer keeps it could expand again from what it keeps. A composer with this property
is closed; every composer that comes about by composing documents and expanding suites is closed,
whatever errors there were on the way, since an expansion is kept only after it succeeded.
-/

namespace Casebook.Composition

open Casebook.Computation Composer

/-! ## What is kept -/

/-- Something is kept under a key. -/
def Kept (c : Composer) (key : String) : Prop :=
  ∃ cases, c.expanded.get? key = some cases

/-- The expansions of all suites that entries refer to are kept. -/
def Covers (c : Composer) (entries : List Entry) : Prop :=
  ∀ r, Entry.suite r ∈ entries → Kept c r.key

/-- Whatever is kept in one state is kept in another. -/
def Widens (s s' : Composition) : Prop :=
  ∀ key, Kept s.composer key → Kept s'.composer key

theorem kept_insert_self (c : Composer) (key : String) (cases : List Case) :
    Kept { c with expanded := c.expanded.insert key cases } key :=
  ⟨cases, Dict.get?_insert_self c.expanded key cases⟩

theorem kept_insert_iff {c : Composer} {key other : String} {cases : List Case} :
    Kept { c with expanded := c.expanded.insert key cases } other ↔ key = other ∨ Kept c other := by
  by_cases hkey : key = other
  · subst hkey
    simp [kept_insert_self]
  · simp only [Kept, Dict.get?_insert_of_ne c.expanded cases hkey, hkey, false_or]

/-- Reading fragments changes nothing that is kept. -/
def KeepsExpanded (s s' : Composition) : Prop :=
  s'.composer.expanded = s.composer.expanded

instance : IsReadingFrame KeepsExpanded where
  refl _ := rfl
  trans _ _ _ h h' := Eq.trans h' h
  note _ _ := rfl
  keep kind _ _ := by cases kind <;> rfl

instance : IsFrame Widens where
  refl _ _ h := h
  trans _ _ _ h h' key hkey := h' key (h key hkey)
  note _ _ _ h := h
  keep kind _ _ _ h := by cases kind <;> exact h
  insert _ _ _ _ h := kept_insert_iff.mpr (.inr h)

theorem KeepsExpanded.kept_iff {s s' : Composition} (h : KeepsExpanded s s') (key : String) :
    Kept s'.composer key ↔ Kept s.composer key := by
  unfold Kept
  rw [h]

section

variable {files : Files} {s s' : Composition} {entries : List Entry} {cases : List Case}

/-- The expansion of a suite is kept once it is there. -/
theorem kept_of_expandUncached {room : ℕ} {stack : List String} {r : Reference} {f : Fragment}
    {body : Value} (h : exec (expandUncached files room stack r f body) s = (.ok cases, s')) :
    Kept s'.composer r.key := by
  cases room with
  | zero => cases h
  | succ room =>
    obtain ⟨inner, s₁, -, h⟩ := exec_bind_eq_ok.mp h
    obtain ⟨_, s₂, hinsert, h⟩ := exec_bind_eq_ok.mp h
    cases hinsert
    cases h
    exact kept_insert_self _ _ _

theorem kept_of_expandSuite {room : ℕ} {stack : List String} {r : Reference}
    (h : exec (expandSuite files room stack r) s = (.ok cases, s')) : Kept s'.composer r.key := by
  rw [expandSuite_eq] at h
  obtain ⟨_, s₁, -, h⟩ := exec_bind_eq_ok.mp h
  split at h
  · cases h
  obtain ⟨f, s₂, -, h⟩ := exec_bind_eq_ok.mp h
  obtain ⟨body, s₃, -, h⟩ := exec_bind_eq_ok.mp h
  obtain ⟨c, s₄, hcomposer, h⟩ := exec_bind_eq_ok.mp h
  cases hcomposer
  cases hget : s₃.composer.expanded.get? r.key with
  | some kept =>
    rw [hget] at h
    cases h
    exact ⟨_, hget⟩
  | none =>
    rw [hget] at h
    exact kept_of_expandUncached h

theorem exec_within {α : Type} (stack : List String) (m : Composing α) (s : Composition) :
    exec (Composing.within stack m) s =
      ((exec m { s with journal := .begun stack :: s.journal }).1,
        { (exec m { s with journal := .begun stack :: s.journal }).2 with
          journal := .ended :: (exec m { s with journal := .begun stack :: s.journal }).2.journal }) :=
  rfl

/-- Once entries are expanded, the expansions of all suites that they refer to are kept. -/
theorem covers_of_expandEntries {suite : Reference → Composing (List Case)}
    (hwidens : ∀ r, Moves Widens (suite r))
    (hsuite : ∀ r s cases s', exec (suite r) s = (.ok cases, s') → Kept s'.composer r.key)
    (h : exec (expandEntries files suite entries) s = (.ok cases, s')) :
    Covers s'.composer entries := by
  induction entries generalizing s cases s' with
  | nil => exact fun r hr => by cases hr
  | cons entry rest ih =>
    obtain ⟨first, s₁, hfirst, h⟩ := exec_bind_eq_ok.mp h
    obtain ⟨more, s₂, hmore, h⟩ := exec_bind_eq_ok.mp h
    cases h
    intro r hr
    rcases List.mem_cons.mp hr with rfl | hr
    · have hmoves : Widens s₁ s' := (moves_expandEntries files hwidens rest).of_exec hmore
      exact hmoves _ (hsuite r s first s₁ hfirst)
    · exact ih hmore r hr

/-- So they are once the document of a suite is expanded. -/
theorem covers_of_expandFresh {room : ℕ} {stack stack' : List String} {f : Fragment} {body : Value}
    (h : exec (Composing.within stack (expandFresh files (expandSuite files room stack') f body)) s =
      (.ok cases, s')) :
    ∃ d, Document.parse f.path s.composer.layout.depth body = .ok d ∧
      Covers s'.composer d.entries := by
  rw [exec_within] at h
  rcases hfresh : exec (expandFresh files (expandSuite files room stack') f body)
    { s with journal := .begun stack :: s.journal } with ⟨result, t⟩
  rw [hfresh] at h
  cases h
  obtain ⟨c, s₁, hcomposer, hfresh⟩ := exec_bind_eq_ok.mp hfresh
  cases hcomposer
  obtain ⟨d, s₂, hlift, hfresh⟩ := exec_bind_eq_ok.mp hfresh
  obtain ⟨hd, rfl⟩ := Prod.mk.inj hlift
  have hcovers := covers_of_expandEntries (fun r => moves_expandSuite files room stack' r)
    (fun r s cases s' h => kept_of_expandSuite h) hfresh
  exact ⟨d, hd, hcovers⟩

end

/-- With every expansion that is kept those of all suites in it are kept. -/
def Closed (files : Files) (area : String) (layout : Layout) (P : Reference → Prop)
    (c : Composer) : Prop :=
  ∀ key, Kept c key → ∃ r d, P r ∧ r.key = key ∧
    Expansion.document files area layout r = .ok d ∧ Covers c d.entries

section

variable {files : Files} {area : String} {layout : Layout} {P : Reference → Prop} {c c' : Composer}

theorem Closed.congr (h : Closed files area layout P c) (hsame : c'.expanded = c.expanded) :
    Closed files area layout P c' := by
  unfold Closed Covers Kept at h ⊢
  rwa [hsame]

theorem Closed.insert (h : Closed files area layout P c) {r : Reference} (hr : P r) {d : Document}
    (hd : Expansion.document files area layout r = .ok d) (hcovers : Covers c d.entries)
    (cases : List Case) :
    Closed files area layout P { c with expanded := c.expanded.insert r.key cases } := by
  have hwider {d : Document} (hd : Covers c d.entries) :
      Covers { c with expanded := c.expanded.insert r.key cases } d.entries :=
    fun r' hr' => kept_insert_iff.mpr (.inr (hd r' hr'))
  intro key hkey
  rcases kept_insert_iff.mp hkey with rfl | hkey
  · exact ⟨r, d, hr, rfl, hd, hwider hcovers⟩
  · obtain ⟨r', d', hr', hkey', hd', hcovers'⟩ := h key hkey
    exact ⟨r', d', hr', hkey', hd', hwider hcovers'⟩

/-- What is kept for a coherent reference covers the document of its suite. -/
theorem Closed.covers (h : Closed files area layout P c) (hcoherent : Coherent P) {r : Reference}
    (hr : P r) (hkept : Kept c r.key) {d : Document}
    (hd : Expansion.document files area layout r = .ok d) : Covers c d.entries := by
  obtain ⟨r', d', hr', hkey, hd', hcovers⟩ := h r.key hkept
  have hargs := hcoherent r' r hr' hr hkey
  have hdocument : Expansion.document files area layout r' =
      Expansion.document files area layout r :=
    Expansion.document_congr (Expansion.name_eq_of_key_eq hkey hargs) hargs
  obtain rfl := Except.ok.inj (hd'.symm.trans (hdocument.trans hd))
  exact hcovers

end

/-! ## Composers stay closed -/

section

variable (files : Files) (area : String) (layout : Layout) (P : Reference → Prop)

/-- From a sound and closed composer, a computation that meets references which fulfil a property
leaves a closed one. -/
def KeepsClosed {α : Type} (m : Composing α) : Prop :=
  ∀ s, Sound files area layout P s.composer → Closed files area layout P s.composer →
    (∀ r ∈ met (exec m s).2, P r) → Closed files area layout P (exec m s).2.composer

variable {files area layout P} {α β : Type} {m : Composing α} {f : α → Composing β}

theorem KeepsClosed.of_met {r : Reference} (hmet : ∀ s, r ∈ met (exec m s).2)
    (h : P r → KeepsClosed files area layout P m) : KeepsClosed files area layout P m :=
  fun s hs hclosed hall => h (hall r (hmet s)) s hs hclosed hall

theorem keepsClosed_of_moves (hm : Moves KeepsExpanded m) : KeepsClosed files area layout P m :=
  fun s _ hclosed _ => hclosed.congr (hm s)

theorem KeepsClosed.bind {Q : Except Error α → Prop} (hspec : Spec files area layout P m Q)
    (hm : KeepsClosed files area layout P m) (hgrows : ∀ a, Moves Grows (f a))
    (hf : ∀ a, Q (.ok a) → KeepsClosed files area layout P (f a)) :
    KeepsClosed files area layout P (m >>= f) := by
  intro s hs hclosed hmet
  rw [exec_bind] at hmet ⊢
  have hfirst := hspec s hs
  have hkeeps := hm s hs hclosed
  rcases hrun : exec m s with ⟨e | a, s₁⟩ <;> rw [hrun] at hmet hfirst hkeeps
  · exact hkeeps hmet
  · have hmet₁ : ∀ r ∈ met s₁, P r := fun r hr => hmet r ((hgrows a s₁).mem_met hr)
    obtain ⟨hs₁, hQ⟩ := hfirst hmet₁
    exact hf a hQ s₁ hs₁ (hkeeps hmet₁) hmet

theorem KeepsClosed.within (hm : KeepsClosed files area layout P m) (stack : List String) :
    KeepsClosed files area layout P (Composing.within stack m) :=
  fun s hs hclosed hmet => hm { s with journal := .begun stack :: s.journal } hs hclosed hmet

theorem keepsClosed_expandEntries {suite : Reference → Composing (List Case)}
    {plain : Reference → Except Error (List Case)} (hgrows : ∀ r, Moves Grows (suite r))
    (hspec : ∀ r, Spec files area layout P (suite r)
      (Refines files area layout [.suite r] (plain r)))
    (hplain : ∀ r cases, plain r = .ok cases →
      Expansion.Denotes files area layout [.suite r] cases)
    (hsuite : ∀ r, KeepsClosed files area layout P (suite r)) (entries : List Entry) :
    KeepsClosed files area layout P (expandEntries files suite entries) := by
  induction entries with
  | nil => exact keepsClosed_of_moves (moves_pure _)
  | cons entry rest ih =>
    refine KeepsClosed.bind (spec_expandEntry hspec hplain entry) ?_ (fun _ =>
      moves_bind (moves_expandEntries files hgrows rest) fun _ => moves_pure _) fun _ _ =>
        KeepsClosed.bind (spec_expandEntries hgrows hspec hplain rest) ih (fun _ => moves_pure _)
          fun _ _ => keepsClosed_of_moves (moves_pure _)
    cases entry with
    | case c => exact keepsClosed_of_moves (moves_pure _)
    | api base r =>
      exact keepsClosed_of_moves (moves_bind (moves_mergeApi files base r) fun _ => moves_pure _)
    | suite r => exact hsuite r

section

variable {path : List String} {r : Reference} {fr : Fragment} {body : Value}

theorem mem_met_of_note {α : Type} {f : PUnit → Composing α} (hgrows : ∀ a, Moves Grows (f a))
    (r : Reference) (s : Composition) :
    r ∈ met (exec (Composing.note (.met r) >>= f) s).2 := by
  have hgrow := hgrows ⟨⟩ { s with journal := .met r :: s.journal }
  exact hgrow.mem_met List.mem_cons_self

theorem moves_checked (room : ℕ) :
    Moves Grows (if r.name ∈ path then throw (chain path r) else expandNew files room path r) := by
  split
  · exact moves_throw _
  · exact moves_expandNew files (moves_expandUncached files room path r)

theorem keepsClosed_expandUncached (hcoherent : Coherent P) (hr : P r)
    (hf : Expansion.fragment files area layout .suite r.name = .ok fr)
    (hbody : fr.instantiate r = .ok body) {room : ℕ}
    (hroom : (Expansion.freeNames files area layout (path ++ [r.name])).length ≤ room)
    (hsuite : ∀ r', KeepsClosed files area layout P (expandSuite files room (path ++ [r.name]) r')) :
    KeepsClosed files area layout P (expandUncached files (room + 1) path r fr body) := by
  have hspec r' : Spec files area layout P (expandSuite files room (path ++ [r.name]) r')
      (Refines files area layout [.suite r']
        (Expansion.ofSuite files area layout (path ++ [r.name]) r')) :=
    spec_expandSuite hcoherent room (path ++ [r.name]) r' hroom
  have hinner : KeepsClosed files area layout P (Composing.within (path ++ [r.name])
      (expandFresh files (expandSuite files room (path ++ [r.name])) fr body)) := by
    refine KeepsClosed.within (KeepsClosed.bind spec_composer (keepsClosed_of_moves moves_composer)
      (fun c => ?_) fun c _ => KeepsClosed.bind (spec_lift _) (keepsClosed_of_moves (moves_lift _))
        (fun d => ?_) fun d _ => ?_) _
    · exact moves_bind (moves_lift _) fun d =>
        moves_expandEntries files (moves_expandSuite files room _) d.entries
    · exact moves_expandEntries files (moves_expandSuite files room _) d.entries
    · exact keepsClosed_expandEntries (moves_expandSuite files room _) hspec
        (fun _ _ => Expansion.denotes_of_ofSuite) hsuite d.entries
  intro s hs hclosed hmet
  have hkeeps := hinner s hs hclosed
  rw [expandUncached, exec_bind] at hmet ⊢
  rcases hrun : exec (Composing.within (path ++ [r.name])
    (expandFresh files (expandSuite files room (path ++ [r.name])) fr body)) s with ⟨e | cases, t⟩
  · rw [hrun] at hmet hkeeps
    exact hkeeps hmet
  · rw [hrun] at hmet hkeeps
    obtain ⟨d, hd, hcovers⟩ := covers_of_expandFresh hrun
    rw [hs.layout_eq, ← document_eq hf hbody] at hd
    exact (hkeeps hmet).insert hr hd hcovers cases

/-- The induction is on the room. -/
theorem keepsClosed_expandSuite (hcoherent : Coherent P) (room : ℕ) (path : List String)
    (r : Reference) (hroom : (Expansion.freeNames files area layout path).length ≤ room) :
    KeepsClosed files area layout P (expandSuite files room path r) := by
  induction room using Nat.strongRecOn generalizing path r with
  | ind room ih =>
  rw [expandSuite_eq]
  refine .of_met (mem_met_of_note (fun _ => moves_checked room) r) fun hr => ?_
  refine .bind (spec_met r) (keepsClosed_of_moves (moves_note _)) (fun _ => moves_checked room)
    fun _ _ => ?_
  by_cases hpath : r.name ∈ path
  · rw [if_pos hpath]
    exact keepsClosed_of_moves (moves_throw _)
  rw [if_neg hpath]
  have hgrows (f : Fragment) (body : Value) :
      Moves Grows (expandOpened files room path r f body) :=
    moves_expandOpened files (moves_expandUncached files room path r) f body
  refine .bind (spec_fragment .suite r.name) (keepsClosed_of_moves (moves_fragment files _ _))
    (fun f => moves_bind (moves_lift _) fun body => hgrows f body) fun f hf => ?_
  refine .bind (spec_lift _) (keepsClosed_of_moves (moves_lift _)) (hgrows f) fun body hbody => ?_
  refine .bind spec_composer (keepsClosed_of_moves moves_composer) (fun c => ?_) fun c _ => ?_
  · cases c.expanded.get? r.key with
    | some cases => exact moves_pure cases
    | none => exact moves_expandUncached files room path r f body
  cases c.expanded.get? r.key with
  | some cases => exact keepsClosed_of_moves (moves_pure _)
  | none =>
    have hlt := Expansion.length_freeNames_lt hpath hf.symm
    cases room with
    | zero => exact keepsClosed_of_moves (moves_throw _)
    | succ room =>
      exact keepsClosed_expandUncached hcoherent hr hf.symm hbody.symm (by omega)
        fun r' => ih room (by omega) _ r' (by omega)

theorem keepsClosed_expand (hcoherent : Coherent P) (r : Reference) :
    KeepsClosed files area layout P (expand files r) := by
  refine .bind (spec_library .suite) (keepsClosed_of_moves (moves_library files _))
    (fun l => moves_expandSuite files _ [] r) fun l hl => ?_
  exact keepsClosed_expandSuite hcoherent l.length [] r
    (Nat.le_of_eq (Expansion.length_freeNames_nil hl.symm))

theorem keepsClosed_composing (hcoherent : Coherent P) (d : Document) :
    KeepsClosed files area layout P (composing files d) :=
  .bind (spec_expandEntries (moves_expand files) (spec_expand hcoherent)
      (fun _ _ => Expansion.denotes_of_ofSuite) d.entries)
    (keepsClosed_expandEntries (moves_expand files) (spec_expand hcoherent)
      (fun _ _ => Expansion.denotes_of_ofSuite) (keepsClosed_expand hcoherent) d.entries)
    (fun _ => moves_bind (moves_lift _) fun _ => moves_pure _)
    fun _ _ => keepsClosed_of_moves (moves_bind (moves_lift _) fun _ => moves_pure _)

/-- Every composer that is reached is closed. -/
theorem Reached.closed {refs : List Reference} {c : Composer}
    (h : Reached files area layout refs c) (hcoherent : Coherent P) (hrefs : ∀ r ∈ refs, P r) :
    Closed files area layout P c := by
  induction h with
  | fresh =>
    intro key hkey
    obtain ⟨cases, hget⟩ := hkey
    cases hget
  | composed d before ih =>
    have hbefore : ∀ r ∈ _, P r := fun r hr => hrefs r (List.mem_append_right _ hr)
    exact keepsClosed_composing hcoherent d ⟨_, []⟩ (before.sound hcoherent hbefore) (ih hbefore)
      fun r hr => hrefs r (List.mem_append_left _ hr)
  | expanded r before ih =>
    have hbefore : ∀ r ∈ _, P r := fun r hr => hrefs r (List.mem_append_right _ hr)
    exact keepsClosed_expand hcoherent r ⟨_, []⟩ (before.sound hcoherent hbefore) (ih hbefore)
      fun r hr => hrefs r (List.mem_append_left _ hr)

end

end

end Casebook.Composition
