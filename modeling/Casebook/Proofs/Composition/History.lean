import Casebook.Proofs.Composition.Closure
import Mathlib.Logic.Relation

/-!
# What a composer was used for before

A composer that was used before may have kept the expansions of suites that a fresh one still has to
expand, and on the way there the fresh one may find a suite inside of itself that the used one never
looks at: the names on the way are checked when a suite is expanded, not when its expansion is
looked up. This is the only difference. If expanding a suite with a fresh composer does not end in
a circular reference, a used one gives the same result; and if all suites that are met under one
name are met with the same arguments, it always does.

Both composers expand a suite side by side. `Ahead` says that whatever the fresh one keeps the used
one keeps as well, and that with an expansion the used one keeps those of all suites in it, so that
it stays ahead of a fresh one that expands what it looks up; `AgreesAt` says that two computations
from two such composers end in the same result and leave such composers, unless the fresh one ends
in a circular reference.
-/

namespace Casebook.Composition

open Casebook.Computation Composer

/-- A result is the error of a suite inside of itself. -/
def IsCircular {α : Type} (result : Except Error α) : Prop :=
  ∃ chain, result = .error (.circularReference chain)

/-- Suites that fulfil a property under one name have the same arguments. -/
def Uniform (P : Reference → Prop) : Prop :=
  ∀ r r', P r → P r' → r.name = r'.name → Expansion.arguments r = Expansion.arguments r'

/-! ## Suites inside of suites -/

section Opening

variable (files : Files) (area : String) (layout : Layout)

/-- The document of the suite that a reference names refers to another suite. -/
def Opens (r r' : Reference) : Prop :=
  ∃ d, Expansion.document files area layout r = .ok d ∧ Entry.suite r' ∈ d.entries

/-- The suites with these names are being expanded, and each of them has a suite in it, at some
depth. -/
def Above (P : Reference → Prop) (stack : List String) (r : Reference) : Prop :=
  ∀ name ∈ stack, ∃ a, P a ∧ a.name = name ∧ Relation.TransGen (Opens files area layout) a r

variable {files area layout} {P : Reference → Prop} {entries : List Entry} {cases : List Case}
  {r r' : Reference} {stack : List String}

/-- What denotes cases has no endless chain of suites in it. -/
theorem acc_opens_of_denotes (h : Expansion.Denotes files area layout entries cases)
    (hr : Entry.suite r ∈ entries) : Acc (Function.swap (Opens files area layout)) r := by
  induction h generalizing r with
  | nil => cases hr
  | case _ ih =>
    rcases List.mem_cons.mp hr with heq | hr
    · cases heq
    · exact ih hr
  | api _ _ ih =>
    rcases List.mem_cons.mp hr with heq | hr
    · cases heq
    · exact ih hr
  | suite hd _ _ ihfirst ihmore =>
    rcases List.mem_cons.mp hr with heq | hr
    · cases heq
      refine .intro _ fun r' hopens => ?_
      obtain ⟨d', hd', hr'⟩ := hopens
      obtain rfl := Except.ok.inj (hd.symm.trans hd')
      exact ihfirst hr'
    · exact ihmore hr

theorem not_transGen_opens_self (h : Expansion.Denotes files area layout [.suite r] cases) :
    ¬Relation.TransGen (Opens files area layout) r r := by
  intro hself
  have hacc := (acc_opens_of_denotes h List.mem_cons_self).transGen
  rw [← Relation.transGen_swap] at hself
  clear h
  induction hacc with
  | intro r _ ih => exact ih r hself hself

/-- A suite that denotes cases does not have the name of one that it is in, if all suites of one
name have the same arguments. -/
theorem not_mem_of_above (huniform : Uniform P) (hr : P r) (habove : Above files area layout P stack r)
    (h : Expansion.Denotes files area layout [.suite r] cases) : r.name ∉ stack := by
  intro hmem
  obtain ⟨a, ha, hname, hinside⟩ := habove r.name hmem
  -- The suite of the same name has the same document, so the suite would be inside of itself.
  have hdocument : Expansion.document files area layout a =
      Expansion.document files area layout r :=
    Expansion.document_congr hname (huniform a r ha hr hname)
  obtain ⟨b, ⟨d, hd, hb⟩, hrest⟩ := Relation.TransGen.head'_iff.mp hinside
  exact not_transGen_opens_self h
    (Relation.TransGen.head'_iff.mpr ⟨b, ⟨d, hdocument ▸ hd, hb⟩, hrest⟩)

theorem Above.push (habove : Above files area layout P stack r) (hr : P r)
    (hopens : Opens files area layout r r') : Above files area layout P (stack ++ [r.name]) r' := by
  intro name hname
  rcases List.mem_append.mp hname with hname | hname
  · obtain ⟨a, ha, hname, hinside⟩ := habove name hname
    exact ⟨a, ha, hname, hinside.tail hopens⟩
  · exact ⟨r, hr, (List.mem_singleton.mp hname).symm, .single hopens⟩

end Opening

/-! ## Two composers side by side -/

section Agreement

variable (files : Files) (area : String) (layout : Layout) (P : Reference → Prop)

/-- One composer keeps all that another keeps, and it is closed. -/
structure Ahead (c c' : Composer) : Prop where
  sound : Sound files area layout P c
  sound' : Sound files area layout P c'
  closed : Closed files area layout P c'
  kept : ∀ key, Kept c key → Kept c' key

/-- From two states a computation each ends in the same result, and the second composer is ahead
again; or the first computation ends in a circular reference, which takes suites that are met under
one name with different arguments. -/
def AgreesAt {α : Type} (s s' : Composition) (m m' : Composing α) : Prop :=
  (∀ r ∈ met (exec m s).2, P r) → (∀ r ∈ met (exec m' s').2, P r) →
    (IsCircular (exec m s).1 ∧ ¬Uniform P) ∨
      ((exec m' s').1 = (exec m s).1 ∧
        Ahead files area layout P (exec m s).2.composer (exec m' s').2.composer)

variable {files area layout P} {α β : Type} {s s' : Composition} {m m' : Composing α}
  {f f' : α → Composing β}

theorem agreesAt_lift (h : Ahead files area layout P s.composer s'.composer)
    (result : Except Error α) :
    AgreesAt files area layout P s s' (Composing.lift result) (Composing.lift result) :=
  fun _ _ => .inr ⟨rfl, h⟩

theorem agreesAt_pure (h : Ahead files area layout P s.composer s'.composer) (a : α) :
    AgreesAt files area layout P s s' (pure a) (pure a) :=
  agreesAt_lift h (.ok a)

theorem agreesAt_throw (h : Ahead files area layout P s.composer s'.composer) (e : Error) :
    AgreesAt files area layout P s s' (throw e : Composing α) (throw e) :=
  agreesAt_lift h (.error e)

theorem AgreesAt.bind (hm : AgreesAt files area layout P s s' m m')
    (hgrows : ∀ a, Moves Grows (f a)) (hgrows' : ∀ a, Moves Grows (f' a))
    (hf : ∀ a t t', exec m s = (.ok a, t) → exec m' s' = (.ok a, t') →
      Ahead files area layout P t.composer t'.composer →
        AgreesAt files area layout P t t' (f a) (f' a)) :
    AgreesAt files area layout P s s' (m >>= f) (m' >>= f') := by
  intro hmet hmet'
  have hfirst := hm (fun r hr => hmet r ((grows_bind hgrows s).mem_met hr))
    fun r hr => hmet' r ((grows_bind hgrows' s').mem_met hr)
  rcases hrun : exec m s with ⟨e | a, t⟩ <;> rcases hrun' : exec m' s' with ⟨result, t'⟩ <;>
    rw [hrun, hrun'] at hfirst
  · -- An error of both ends both, and a circular reference ends the first.
    rw [exec_bind, hrun, exec_bind, hrun']
    rcases hfirst with ⟨⟨chain, hchain⟩, huniform⟩ | ⟨heq, hahead⟩
    · cases hchain
      exact .inl ⟨⟨chain, rfl⟩, huniform⟩
    · cases heq
      exact .inr ⟨rfl, hahead⟩
  · rcases hfirst with ⟨⟨chain, hchain⟩, -⟩ | ⟨heq, hahead⟩
    · cases hchain
    · cases heq
      have hsecond := hf a t t' hrun hrun' hahead
      rw [exec_bind_of_ok hrun] at hmet ⊢
      rw [exec_bind_of_ok hrun'] at hmet' ⊢
      exact hsecond hmet hmet'

/-- Reading fragments gives the same in both. -/
theorem agreesAt_of_spec {x : Except Error α} (h : Ahead files area layout P s.composer s'.composer)
    (hspec : Spec files area layout P m (· = x)) (hmoves : Moves KeepsExpanded m) :
    AgreesAt files area layout P s s' m m := by
  intro hmet hmet'
  obtain ⟨hsound, hx⟩ := hspec s h.sound hmet
  obtain ⟨hsound', hx'⟩ := hspec s' h.sound' hmet'
  refine .inr ⟨hx'.trans hx.symm, hsound, hsound', h.closed.congr (hmoves s'), fun key hkey => ?_⟩
  exact ((hmoves s').kept_iff key).mpr (h.kept key (((hmoves s).kept_iff key).mp hkey))

/-- After both composers read the same, they go on with it. -/
theorem AgreesAt.bind_spec {x : Except Error α}
    (h : Ahead files area layout P s.composer s'.composer)
    (hspec : Spec files area layout P m (· = x)) (hmoves : Moves KeepsExpanded m)
    (hgrows : ∀ a, Moves Grows (f a)) (hgrows' : ∀ a, Moves Grows (f' a))
    (hf : ∀ a t t', x = .ok a → Ahead files area layout P t.composer t'.composer →
      AgreesAt files area layout P t t' (f a) (f' a)) :
    AgreesAt files area layout P s s' (m >>= f) (m >>= f') := by
  intro hmet hmet'
  have hx := (hspec s h.sound fun r hr => hmet r ((grows_bind hgrows s).mem_met hr)).2
  refine AgreesAt.bind (agreesAt_of_spec h hspec hmoves) hgrows hgrows' ?_ hmet hmet'
  intro a t t' hrun _ ht
  rw [hrun] at hx
  exact hf a t t' hx.symm ht

/-- What the first computation reads before the second begins changes nothing. -/
theorem AgreesAt.bind_left {a : α} {m' : Composing β}
    (h : Ahead files area layout P s.composer s'.composer)
    (hspec : Spec files area layout P m (· = .ok a)) (hmoves : Moves KeepsExpanded m)
    (hgrows : ∀ a, Moves Grows (f a))
    (hf : ∀ t, Ahead files area layout P t.composer s'.composer →
      AgreesAt files area layout P t s' (f a) m') :
    AgreesAt files area layout P s s' (m >>= f) m' := by
  intro hmet hmet'
  obtain ⟨hsound, ha⟩ := hspec s h.sound fun r hr => hmet r ((grows_bind hgrows s).mem_met hr)
  have hkept := hmoves s
  rcases hrun : exec m s with ⟨result, t⟩
  rw [hrun] at hsound ha hkept
  cases ha
  have hahead : Ahead files area layout P t.composer s'.composer :=
    ⟨hsound, h.sound', h.closed, fun key hkey => h.kept key ((hkept.kept_iff key).mp hkey)⟩
  rw [exec_bind_of_ok hrun] at hmet ⊢
  exact hf t hahead hmet hmet'

theorem AgreesAt.within (stack : List String)
    (h : AgreesAt files area layout P { s with journal := .begun stack :: s.journal }
      { s' with journal := .begun stack :: s'.journal } m m') :
    AgreesAt files area layout P s s' (Composing.within stack m) (Composing.within stack m') :=
  h

theorem AgreesAt.within_left {a : α} (stack : List String)
    (h : AgreesAt files area layout P { s with journal := .begun stack :: s.journal } s' m
      (pure a)) : AgreesAt files area layout P s s' (Composing.within stack m) (pure a) :=
  h

/-- A reference that is met in the first computation fulfils the property. -/
theorem AgreesAt.of_met {r : Reference} (hr : r ∈ met (exec m s).2)
    (h : P r → AgreesAt files area layout P s s' m m') : AgreesAt files area layout P s s' m m' :=
  fun hmet hmet' => h (hmet r hr) hmet hmet'

theorem AgreesAt.lift_left {a : α} {result : Except Error α} {m' : Composing β}
    (ha : result = .ok a) (h : AgreesAt files area layout P s s' (f a) m') :
    AgreesAt files area layout P s s' (Composing.lift result >>= f) m' := by
  subst ha
  exact h

/-- The composer that the first computation looks at is the one of its state. -/
theorem AgreesAt.composer_left {f : Composer → Composing α}
    (h : AgreesAt files area layout P s s' (f s.composer) m') :
    AgreesAt files area layout P s s' (Composing.composer >>= f) m' :=
  h

theorem AgreesAt.composer {f f' : Composer → Composing α}
    (h : AgreesAt files area layout P s s' (f s.composer) (f' s'.composer)) :
    AgreesAt files area layout P s s' (Composing.composer >>= f) (Composing.composer >>= f') :=
  h

end Agreement

/-! ## Expanding what the other composer keeps -/

section Covered

variable {files : Files} {area : String} {layout : Layout} {P : Reference → Prop}
  {s s' : Composition} {entries : List Entry} {cases : List Case} {path : List String}
  {r : Reference} {fr : Fragment} {body : Value} {room : ℕ}

theorem agreesAt_expandEntries_pure {suite : Reference → Composing (List Case)}
    (hgrows : ∀ r, Moves Grows (suite r))
    (hsuite : ∀ r, Entry.suite r ∈ entries → ∀ t inner,
      Ahead files area layout P t.composer s'.composer →
        Expansion.Denotes files area layout [.suite r] inner →
          AgreesAt files area layout P t s' (suite r) (pure inner))
    (h : Ahead files area layout P s.composer s'.composer)
    (hdenotes : Expansion.Denotes files area layout entries cases) :
    AgreesAt files area layout P s s' (expandEntries files suite entries) (pure cases) := by
  induction entries generalizing s cases with
  | nil =>
    cases hdenotes
    exact agreesAt_pure h []
  | cons entry rest ih =>
    -- The cases of the entry are there at once, and those of the rest.
    have hcons {first more : List Case}
        (hfirst : AgreesAt files area layout P s s' (expandEntry files suite entry) (pure first))
        (hmore : Expansion.Denotes files area layout rest more) :
        AgreesAt files area layout P s s' (expandEntries files suite (entry :: rest))
          (pure (first ++ more)) := by
      show AgreesAt files area layout P s s' _
        (pure first >>= fun a => pure more >>= fun b => pure (a ++ b))
      refine AgreesAt.bind hfirst
        (fun _ => moves_bind (moves_expandEntries files hgrows rest) fun _ => moves_pure _)
        (fun _ => moves_pure _) fun a t t' _ hrun' hahead => ?_
      cases hrun'
      refine AgreesAt.bind (ih (fun r hr => hsuite r (List.mem_cons_of_mem entry hr)) hahead hmore)
        (fun _ => moves_pure _) (fun _ => moves_pure _) fun b u u' _ hrun' hahead => ?_
      cases hrun'
      exact agreesAt_pure hahead _
    cases hdenotes with
    | case more => exact hcons (agreesAt_pure h _) more
    | @api base c r _ more first hmore =>
      show AgreesAt files area layout P s s' _ (pure ([c] ++ more))
      refine hcons ?_ hmore
      exact .bind_left h (first ▸ spec_mergeApi base r) (moves_mergeApi files base r)
        (fun _ => moves_pure _) fun t ht => agreesAt_pure ht [c]
    | @suite r d _ inner _ hd hinner more =>
      refine hcons ?_ more
      exact hsuite r List.mem_cons_self s inner h
        (Expansion.denotes_suite_iff.mpr ⟨d, hd, hinner⟩)

theorem agreesAt_expandSuite_pure_of_uncached (hcoherent : Coherent P)
    (habove : Above files area layout P path r)
    (hdenotes : Expansion.Denotes files area layout [.suite r] cases)
    (huncached : ∀ fr body t, P r → r.name ∉ path →
      Expansion.fragment files area layout .suite r.name = .ok fr → fr.instantiate r = .ok body →
        Ahead files area layout P t.composer s'.composer →
          AgreesAt files area layout P t s' (expandUncached files room path r fr body) (pure cases))
    (h : Ahead files area layout P s.composer s'.composer) :
    AgreesAt files area layout P s s' (expandSuite files room path r) (pure cases) := by
  rw [expandSuite_eq]
  refine .of_met (mem_met_of_note (fun _ => moves_checked room) r s) fun hr => ?_
  refine .bind_left h ((spec_met r).mono fun _ h => h.1) (moves_note _)
    (fun _ => moves_checked room) fun t ht => ?_
  by_cases hpath : r.name ∈ path
  · rw [if_pos hpath]
    exact fun _ _ => .inl
      ⟨⟨_, rfl⟩, fun huniform => not_mem_of_above huniform hr habove hdenotes hpath⟩
  rw [if_neg hpath]
  obtain ⟨d, hd, -⟩ := Expansion.denotes_suite_iff.mp hdenotes
  obtain ⟨fr, hf, hd⟩ := bind_eq_ok.mp hd
  obtain ⟨body, hbody, -⟩ := bind_eq_ok.mp hd
  refine .bind_left ht (hf ▸ spec_fragment .suite r.name) (moves_fragment files _ _)
    (fun fr => moves_bind (moves_lift _) fun body =>
      moves_expandOpened files (moves_expandUncached files room path r) fr body) fun t ht => ?_
  refine .lift_left hbody (.composer_left ?_)
  cases hget : t.composer.expanded.get? r.key with
  | some own =>
    -- What the first composer keeps is what the suite denotes as well.
    obtain rfl := (ht.sound.denotes_of_get? hcoherent hr hget).unique hdenotes
    exact agreesAt_pure ht own
  | none => exact huncached fr body t hr hpath hf hbody ht

/-- The induction is on the room. -/
theorem agreesAt_expandUncached_pure (hcoherent : Coherent P) (room : ℕ) (path : List String)
    (r : Reference) (hroom : (Expansion.freeNames files area layout path).length ≤ room)
    (habove : Above files area layout P path r) (hr : P r) (hpath : r.name ∉ path)
    (hf : Expansion.fragment files area layout .suite r.name = .ok fr)
    (hbody : fr.instantiate r = .ok body) (hkept : Kept s'.composer r.key)
    (hdenotes : Expansion.Denotes files area layout [.suite r] cases)
    (h : Ahead files area layout P s.composer s'.composer) :
    AgreesAt files area layout P s s' (expandUncached files room path r fr body) (pure cases) := by
  induction room using Nat.strongRecOn generalizing path r fr body s cases with
  | ind room ih =>
  have hlt := Expansion.length_freeNames_lt hpath hf
  cases room with
  | zero => omega
  | succ room =>
  obtain ⟨d, hd, hinner⟩ := Expansion.denotes_suite_iff.mp hdenotes
  have hcovers := h.closed.covers hcoherent hr hkept hd
  have hgrows r' : Moves Grows (expandSuite files room (path ++ [r.name]) r') :=
    moves_expandSuite files room _ r'
  show AgreesAt files area layout P s s' _ (pure cases >>= fun cases => pure cases)
  refine AgreesAt.bind (.within_left _ (.composer_left ?_))
    (fun _ => moves_bind (moves_insert _ _) fun _ => moves_pure _) (fun _ => moves_pure _)
    fun own t t' _ hrun' hahead => ?_
  · -- Each suite in the document is one that the second composer keeps.
    simp only [h.sound.layout_eq, ← document_eq hf hbody]
    refine .lift_left hd ?_
    refine agreesAt_expandEntries_pure hgrows (fun r' hr' t inner ht hinner => ?_) h hinner
    exact agreesAt_expandSuite_pure_of_uncached hcoherent (habove.push hr ⟨d, hd, hr'⟩)
      hinner (fun fr body t hr'' hpath' hf hbody ht =>
        ih room (by omega) _ r' (by omega) (habove.push hr ⟨d, hd, hr'⟩) hr'' hpath' hf hbody
          (hcovers r' hr') hinner ht) ht
  · cases hrun'
    refine fun _ _ => .inr ⟨rfl, hahead.sound.insert hr hdenotes, hahead.sound', hahead.closed,
      fun key hkey => ?_⟩
    rcases kept_insert_iff.mp hkey with rfl | hkey
    · exact hkept
    · exact hahead.kept key hkey

end Covered

/-! ## Expanding with both composers -/

section Both

variable {files : Files} {area : String} {layout : Layout} {P : Reference → Prop}
  {s s' : Composition} {path : List String} {r : Reference} {fr : Fragment} {body : Value}

theorem agreesAt_expandEntries {suite : Reference → Composing (List Case)} {entries : List Entry}
    (hgrows : ∀ r, Moves Grows (suite r))
    (hsuite : ∀ r, Entry.suite r ∈ entries → ∀ t t',
      Ahead files area layout P t.composer t'.composer →
        AgreesAt files area layout P t t' (suite r) (suite r))
    (h : Ahead files area layout P s.composer s'.composer) :
    AgreesAt files area layout P s s' (expandEntries files suite entries)
      (expandEntries files suite entries) := by
  induction entries generalizing s s' with
  | nil => exact agreesAt_pure h []
  | cons entry rest ih =>
    have hrest (first : List Case) : Moves Grows (expandEntries files suite rest >>= fun more =>
        pure (first ++ more)) :=
      moves_bind (moves_expandEntries files hgrows rest) fun _ => moves_pure _
    refine AgreesAt.bind ?_ hrest hrest fun first t t' _ _ hahead => ?_
    · cases entry with
      | case c => exact agreesAt_pure h [c]
      | api base r =>
        exact .bind (agreesAt_of_spec h (spec_mergeApi base r) (moves_mergeApi files base r))
          (fun _ => moves_pure _) (fun _ => moves_pure _)
          fun c _ _ _ _ hahead => agreesAt_pure hahead [c]
      | suite r => exact hsuite r List.mem_cons_self s s' h
    · exact .bind (ih (fun r hr => hsuite r (List.mem_cons_of_mem entry hr)) hahead)
        (fun _ => moves_pure _) (fun _ => moves_pure _)
        fun more _ _ _ _ hahead => agreesAt_pure hahead _

/-- A suite that neither composer keeps is expanded by both, and kept by both. -/
theorem agreesAt_expandUncached (hcoherent : Coherent P) (hr : P r) {room : ℕ}
    (hroom : (Expansion.freeNames files area layout (path ++ [r.name])).length ≤ room)
    (hf : Expansion.fragment files area layout .suite r.name = .ok fr)
    (hbody : fr.instantiate r = .ok body)
    (hsuite : ∀ r', Opens files area layout r r' → ∀ t t',
      Ahead files area layout P t.composer t'.composer →
        AgreesAt files area layout P t t' (expandSuite files room (path ++ [r.name]) r')
          (expandSuite files room (path ++ [r.name]) r'))
    (h : Ahead files area layout P s.composer s'.composer) :
    AgreesAt files area layout P s s' (expandUncached files (room + 1) path r fr body)
      (expandUncached files (room + 1) path r fr body) := by
  have hgrows r' : Moves Grows (expandSuite files room (path ++ [r.name]) r') :=
    moves_expandSuite files room _ r'
  refine AgreesAt.bind (.within _ (.composer ?_))
    (fun _ => moves_bind (moves_insert _ _) fun _ => moves_pure _)
    (fun _ => moves_bind (moves_insert _ _) fun _ => moves_pure _)
    fun cases t t' hrun hrun' hahead => ?_
  · simp only [h.sound.layout_eq, h.sound'.layout_eq]
    refine .bind (agreesAt_lift h _) (fun d => moves_expandEntries files hgrows d.entries)
      (fun d => moves_expandEntries files hgrows d.entries) fun d t t' hrun _ hahead => ?_
    have hd : Expansion.document files area layout r = .ok d := by
      rw [document_eq hf hbody]
      exact (Prod.mk.inj hrun).1
    exact agreesAt_expandEntries hgrows (fun r' hr' => hsuite r' ⟨d, hd, hr'⟩) hahead
  · -- What is kept now is what the suite denotes, and its document is covered.
    have hspec : Spec files area layout P (Composing.within (path ++ [r.name])
        (expandFresh files (expandSuite files room (path ++ [r.name])) fr body))
        (Refines files area layout [.suite r] (Expansion.ofSuite files area layout path r)) :=
      (spec_expandFresh hf hbody hgrows fun r' =>
        spec_expandSuite hcoherent room (path ++ [r.name]) r' hroom).within _
    obtain ⟨d, hd, hcovers⟩ := covers_of_expandFresh hrun'
    rw [h.sound'.layout_eq, ← document_eq hf hbody] at hd
    intro hmet _
    have hrefines := (hspec s h.sound (by rw [hrun]; exact hmet)).2
    rw [hrun] at hrefines
    have hdenotes := hrefines.denoted cases rfl
    refine .inr ⟨rfl, hahead.sound.insert hr hdenotes, hahead.sound'.insert hr hdenotes,
      hahead.closed.insert hr hd hcovers cases, fun key hkey => ?_⟩
    exact kept_insert_iff.mpr ((kept_insert_iff.mp hkey).imp id (hahead.kept key))

/-- The induction is on the room: each suite that is expanded takes one of the free names. -/
theorem agreesAt_expandSuite (hcoherent : Coherent P) (room : ℕ) (path : List String)
    (r : Reference) (hroom : (Expansion.freeNames files area layout path).length ≤ room)
    (habove : Above files area layout P path r)
    (h : Ahead files area layout P s.composer s'.composer) :
    AgreesAt files area layout P s s' (expandSuite files room path r)
      (expandSuite files room path r) := by
  induction room using Nat.strongRecOn generalizing path r s s' with
  | ind room ih =>
  rw [expandSuite_eq]
  refine .of_met (mem_met_of_note (fun _ => moves_checked room) r s) fun hr => ?_
  refine .bind_spec h ((spec_met r).mono fun _ h => h.1) (moves_note _)
    (fun _ => moves_checked room) (fun _ => moves_checked room) fun _ t t' _ ht => ?_
  by_cases hpath : r.name ∈ path
  · rw [if_pos hpath]
    exact agreesAt_throw ht _
  rw [if_neg hpath]
  have hgrows (fr : Fragment) (body : Value) :
      Moves Grows (expandOpened files room path r fr body) :=
    moves_expandOpened files (moves_expandUncached files room path r) fr body
  have hlift (fr : Fragment) := moves_bind (moves_lift (fr.instantiate r)) fun body => hgrows fr body
  refine .bind_spec ht (spec_fragment .suite r.name) (moves_fragment files _ _) hlift hlift
    fun fr u u' hf hu => ?_
  refine .bind_spec hu (spec_lift _) (moves_lift _) (hgrows fr) (hgrows fr)
    fun body v v' hbody hv => ?_
  refine .composer ?_
  cases hget : v.composer.expanded.get? r.key with
  | some cases =>
    -- The second composer keeps the same.
    have hdenotes := hv.sound.denotes_of_get? hcoherent hr hget
    obtain ⟨cases', hget'⟩ := hv.kept r.key ⟨cases, hget⟩
    obtain rfl := (hv.sound'.denotes_of_get? hcoherent hr hget').unique hdenotes
    rw [hget']
    exact agreesAt_pure hv _
  | none =>
    cases hget' : v'.composer.expanded.get? r.key with
    | some cases =>
      exact agreesAt_expandUncached_pure hcoherent room path r hroom habove hr hpath hf hbody
        ⟨cases, hget'⟩ (hv.sound'.denotes_of_get? hcoherent hr hget') hv
    | none =>
      have hlt := Expansion.length_freeNames_lt hpath hf
      cases room with
      | zero => exact agreesAt_throw hv _
      | succ room =>
        exact agreesAt_expandUncached hcoherent hr (by omega) hf hbody
          (fun r' hopens w w' hw => ih room (by omega) _ r' (by omega) (habove.push hr hopens) hw) hv

theorem agreesAt_expand (hcoherent : Coherent P) (r : Reference)
    (h : Ahead files area layout P s.composer s'.composer) :
    AgreesAt files area layout P s s' (expand files r) (expand files r) :=
  .bind_spec h (spec_library .suite) (moves_library files _)
    (fun l => moves_expandSuite files _ [] r) (fun l => moves_expandSuite files _ [] r)
    fun l _ _ hl ht => agreesAt_expandSuite hcoherent l.length [] r
      (Nat.le_of_eq (Expansion.length_freeNames_nil hl)) (by simp [Above]) ht

/-- The references to suites that were met before, and those that are met when a suite is expanded
with a composer and with a fresh one. -/
def encountered (files : Files) (area : String) (layout : Layout) (refs : List Reference)
    (c : Composer) (r : Reference) : List Reference :=
  metBy c (expand files r) ++ (metBy (ofArea area layout) (expand files r) ++ refs)

/-- Whatever a composer was used for before, it ends in a circular reference only if a fresh one
does, and unless a fresh one does it gives the same result. If all suites that are met under one
name are met with the same arguments, it always gives the same result, be it a circular reference.
All this as long as no two references that are met have the same key and different arguments. -/
theorem run_expand_of_reached {refs : List Reference} {c : Composer}
    (reached : Reached files area layout refs c) (r : Reference)
    (coherent : Coherent (· ∈ encountered files area layout refs c r)) :
    (IsCircular (c.run (expand files r)).1 →
        IsCircular ((ofArea area layout).run (expand files r)).1) ∧
      (¬IsCircular ((ofArea area layout).run (expand files r)).1 →
        (c.run (expand files r)).1 = ((ofArea area layout).run (expand files r)).1) ∧
      (Uniform (· ∈ encountered files area layout refs c r) →
        (c.run (expand files r)).1 = ((ofArea area layout).run (expand files r)).1) := by
  have hrefs : ∀ x ∈ refs, x ∈ encountered files area layout refs c r := fun x hx =>
    List.mem_append_right _ (List.mem_append_right _ hx)
  have hahead : Ahead files area layout (· ∈ encountered files area layout refs c r)
      (ofArea area layout) c :=
    ⟨sound_ofArea, reached.sound coherent hrefs, reached.closed coherent hrefs, fun key hkey => by
      obtain ⟨cases, hget⟩ := hkey
      cases hget⟩
  have hagrees : AgreesAt files area layout (· ∈ encountered files area layout refs c r)
      ⟨ofArea area layout, []⟩ ⟨c, []⟩ (expand files r) (expand files r) :=
    agreesAt_expand coherent r hahead
  have hends := hagrees (fun x hx => List.mem_append_right _ (List.mem_append_left _ hx))
    fun x hx => List.mem_append_left _ hx
  change (IsCircular ((ofArea area layout).run (expand files r)).1 ∧ _) ∨
    ((c.run (expand files r)).1 = ((ofArea area layout).run (expand files r)).1 ∧ _) at hends
  rcases hends with ⟨hcircular, huniform⟩ | ⟨heq, -⟩
  · exact ⟨fun _ => hcircular, fun h => absurd hcircular h, fun h => absurd h huniform⟩
  · exact ⟨fun h => heq ▸ h, fun _ => heq, fun _ => heq⟩

end Both

/-! ## Examples -/

/-- Files with suites of these names and documents behind their `project` blocks. -/
def filesOfSuites (suites : List (String × String × String)) : Files where
  here := []
  root := .folder [("dependencies", .folder [("suite", .folder (suites.map fun s =>
    (s.1, .file (some (s!"- project:\n    def: {s.2.1}\n- case:\n{s.2.2}")))))])]

/-- A reference to a suite with some texts as arguments. -/
def referenceTo (name : String) (args : List String) : Reference where
  kind := .suite
  call := ⟨name, args.map fun a => .literal none (.string a) a⟩
  source := name ++ "(" ++ Text.join "," args ++ ")"

/-- A suite with another one in it, and that one, which is a case. -/
def nestedSuites : Files :=
  filesOfSuites [("i.yaml", "inner", "    id: A\n    desc: d\n    steps:\n      - click: b\n"),
    ("o.yaml", "outer", "    suite: inner\n")]

/-- A composer that expanded the inner suite expands the outer one as a fresh composer does. -/
theorem run_expand_of_reached_nested :
    let before := ofArea "dependencies" .standard
    let c := (before.run (expand nestedSuites (referenceTo "inner" []))).2
    c.expanded.keys = ["inner()"] ∧
      (c.run (expand nestedSuites (referenceTo "outer" []))).1 =
        (before.run (expand nestedSuites (referenceTo "outer" []))).1 := by
  intro before c
  have hreached : Reached nestedSuites "dependencies" .standard _ c :=
    .expanded (referenceTo "inner" []) .fresh
  have hruns : c.expanded.keys = ["inner()"] ∧
      ∀ r ∈ encountered nestedSuites "dependencies" .standard
        (metBy before (expand nestedSuites (referenceTo "inner" [])) ++ []) c
          (referenceTo "outer" []), Expansion.arguments r = [] := by decide +kernel
  obtain ⟨hkeys, hmet⟩ := hruns
  have hsame := (run_expand_of_reached hreached (referenceTo "outer" [])
    fun r r' hr hr' _ => (hmet r hr).trans (hmet r' hr').symm).2.2
      fun r r' hr hr' _ => (hmet r hr).trans (hmet r' hr').symm
  exact ⟨hkeys, hsame⟩

/-- A suite that expands to the one it is given; one of the others gives it the third. -/
def circularSuites : Files :=
  filesOfSuites [("a.yaml", "a($n)", "    suite: $\x7bn\x7d\n"),
    ("x1.yaml", "x1", "    suite: a(x2)\n"),
    ("x2.yaml", "x2", "    id: A\n    desc: d\n    steps:\n      - click: b\n")]

/-- A fresh composer finds a suite inside of itself that a composer which expanded the suite between
does not find. -/
theorem run_expand_of_reached_circular :
    let before := ofArea "dependencies" .standard
    let r := referenceTo "a" ["x1"]
    (∀ a ∈ r.call.args, a.key = none) ∧
      IsCircular (before.run (expand circularSuites r)).1 ∧
      Reached circularSuites "dependencies" .standard
        (metBy before (expand circularSuites (referenceTo "x1" [])) ++ [])
        (before.run (expand circularSuites (referenceTo "x1" []))).2 ∧
      ¬IsCircular ((before.run (expand circularSuites (referenceTo "x1" []))).2.run
        (expand circularSuites r)).1 := by
  intro before r
  have hfresh : (before.run (expand circularSuites r)).1.map (List.map Case.id) =
      .error (.circularReference "a -> x1 -> a") := by decide +kernel
  have hused : ((before.run (expand circularSuites (referenceTo "x1" []))).2.run
      (expand circularSuites r)).1.map (List.map Case.id) = .ok ["A"] := by decide +kernel
  refine ⟨by decide +kernel, ?_, .expanded (referenceTo "x1" []) .fresh, ?_⟩
  · cases hresult : (before.run (expand circularSuites r)).1 with
    | ok cases => rw [hresult] at hfresh; cases hfresh
    | error e => rw [hresult] at hfresh; cases hfresh; exact ⟨_, rfl⟩
  · obtain ⟨cases, hcases, -⟩ := map_eq_ok.mp hused
    rw [hcases]
    rintro ⟨chain, hchain⟩
    cases hchain

end Casebook.Composition
