import Casebook.Proofs.Template.Calls
import Casebook.Proofs.Template.Filling
import Casebook.Proofs.Template.Suitable

/-!
# Reading what was put in

The scanner that replaces parameters and the parser go through a text side by side. The scanner
knows from its scopes where the parser is: between quotes, in an argument, or in front of one. As
long as the two agree, each piece that the parser reads is a piece of the text with its parameters
replaced, or several pieces where a parameter stood between quotes. `Refills` says of two rules for
placeholders that one takes from the text with its parameters replaced what the other takes from the
text.

There is one more way to disagree than those that `Argument.Suits` keeps out. Between quotes the
scanner passes over any character behind a backslash, also over a dollar, which begins a placeholder
for the parser; no text is `Unhidden` in which it does.
-/

namespace Casebook.Template

open Text Segment Substitution

/-- No dollar is kept back by a backslash between quotes. -/
def Unhidden (scopes : List Scope) (s : List Char) : Prop :=
  Part.kept ['\\', '$'] ∉ partsIn scopes s

section

variable {mapping : Dict Substitution} {scopes : List Scope} {s rest : List Char}

/-! ## What is left of a text -/

/-- A text that begins with no dollar keeps its first character. -/
theorem head?_filled (hs : s.head? ≠ some '$') (hne : s ≠ []) :
    (filled mapping scopes s).head? = s.head? := by
  obtain ⟨c, t, rfl⟩ := List.exists_cons_of_ne_nil hne
  have hc : c ≠ '$' := fun heq => hs (by rw [heq]; rfl)
  rw [filled, partsIn.eq_def]
  simp only [if_neg hc]
  split
  · cases t <;> rfl
  · rfl

theorem Unhidden.tail {scopes' : List Scope} {part : Part}
    (heq : partsIn scopes s = part :: partsIn scopes' rest) (h : Unhidden scopes s) :
    Unhidden scopes' rest := by
  unfold Unhidden at h
  rw [heq] at h
  exact fun hmem => h (List.mem_cons_of_mem _ hmem)

theorem Unhidden.drop {scopes' : List Scope} {u : List Char} (h : Unhidden scopes (u ++ s))
    (hu : Copies scopes u scopes') : Unhidden scopes' s := by
  obtain ⟨kept, hparts, -⟩ := hu s
  unfold Unhidden at h
  rw [hparts] at h
  exact fun hmem => h (List.mem_append_right _ hmem)

end

/-! ## Rules for placeholders -/

/-- A rule for placeholders takes from a text with parameters replaced what another takes from the
text, and it takes what the parameters are replaced by. -/
structure Refills (mapping : Dict Substitution) (depth : ℕ) (P P' : Rule Segment) : Prop extends
    IsFramed P where
  framed : IsFramed P'
  mono (s : List Char) (segment : Segment) (rest : List Char) (h : P s segment rest) :
    P' s segment rest
  fits (s : List Char) (segment : Segment) (rest : List Char)
    (h : TakesPlaceholder depth s segment rest) : P' s segment rest
  rereads {n : String} {sub : Substitution} (h : mapping.get? n = some sub) :
    ∃ a : Argument, sub.literal = a.raw ∧ Rereads P' a
  braced_of_var {s rest : List Char} {n : String} (h : P s (.var n) rest) :
    ∃ name, braced s = .name name rest ∧ name ≠ [] ∧ String.ofList name = n
  call {scopes : List Scope} {s rest : List Char} {c : Call} (h : P s (.call c) rest)
    (hscopes : Delimited scopes) (hsuits : ∀ a ∈ nestedInArgs c.args, a.Suits mapping depth)
    (hhidden : Unhidden scopes ('$' :: '\x7b' :: s)) :
    ∃ s' c', filled mapping scopes ('$' :: '\x7b' :: s) = '$' :: '\x7b' :: s' ∧
      P' s' (.call c') (filled mapping (begun scopes) rest) ∧ c'.name = c.name ∧
      c'.args.map Argument.key = c.args.map Argument.key ∧ Unhidden (begun scopes) rest

section Rules

variable {mapping : Dict Substitution} {depth : ℕ} {P P' : Rule Segment} {scopes : List Scope}
  {stop : Stop} {s t rest : List Char}

/-! ## Pieces -/

/-- A piece that begins with a dollar and is not replaced is read again in front of what the text
behind it is read as. -/
theorem TakesPiece.refilled (hP : Refills mapping depth P P') (hstop : stop.IsUsual) {p : Piece}
    (h : TakesPiece P stop ('$' :: s) p rest) (hscopes : Delimited scopes)
    (hp : ∀ n, p = .placeholder (.var n) → mapping.get? n = none)
    (hsuits : ∀ a ∈ p.nestedArguments, a.Suits mapping depth)
    (hhidden : Unhidden scopes ('$' :: s)) (hrest : rest ≠ []) :
    Unhidden (begun scopes) rest ∧ ∀ ps last,
      TakesPieces P' stop (filled mapping (begun scopes) rest) ps last →
      ∃ t ps', filled mapping scopes ('$' :: s) = '$' :: t ∧
        TakesPieces P' stop ('$' :: t) ps' last := by
  -- A reference that is not replaced is written as it was.
  have hvar {name written : List Char} (hrefers : Refers name written rest)
      (heq : '$' :: s = written ++ rest) (hget : mapping.get? (String.ofList name) = none) :
      Unhidden (begun scopes) rest ∧
        filled mapping scopes ('$' :: s) = written ++ filled mapping (begun scopes) rest := by
    rw [heq] at hhidden ⊢
    refine ⟨hhidden.tail (partsIn_refers hrefers), ?_⟩
    rw [filled_refers hrefers, Part.replace, hget]
  cases h with
  | dollars =>
    refine ⟨hhidden.tail partsIn_dollars, fun ps last hps => ?_⟩
    exact ⟨_, _, filled_dollars, .more hstop.goes_on .dollars hps⟩
  | @braces u segment _ inner =>
    cases segment with
    | text =>
      have htext := (hP.canonical _ _ _ inner).2
      cases htext
    | var n =>
      obtain ⟨name, hbraced, -, rfl⟩ := hP.braced_of_var inner
      obtain ⟨written, hrefers, heq⟩ := exists_refers_of_braced hbraced
      obtain ⟨hrest', hfilled⟩ := hvar hrefers heq.symm (hp _ rfl)
      obtain ⟨v, rfl, hv⟩ := hP.frame inner
      have hwritten : written = '$' :: '\x7b' :: (v ++ ['\x7d']) := by
        refine List.append_cancel_right (heq.trans ?_)
        simp
      refine ⟨hrest', fun ps last hps => ?_⟩
      have hinner := hP.mono _ _ _ (hv (filled mapping (begun scopes) rest))
      refine ⟨_, _, ?_, .more hstop.goes_on (.braces hinner) hps⟩
      rw [hfilled, hwritten]
      simp
    | call c =>
      have hargs : ∀ a ∈ nestedInArgs c.args, a.Suits mapping depth := by
        cases c
        exact hsuits
      obtain ⟨s', c', hfilled, hcall, -, -, hrest'⟩ := hP.call inner hscopes hargs hhidden
      exact ⟨hrest', fun ps last hps => ⟨_, _, hfilled, .more hstop.goes_on (.braces hcall) hps⟩⟩
  | @name _ name _ word_eq ne_nil =>
    obtain ⟨rfl, hisWord, -⟩ := word_eq_iff.mp word_eq
    obtain ⟨hrest', hfilled⟩ := hvar (refers_of_word word_eq ne_nil) rfl (hp _ rfl)
    refine ⟨hrest', fun ps last hps => ?_⟩
    -- The name may go on in what is put in behind it.
    have hname := hps.append_inert hstop fun x hx => inert_of_isWord (hisWord x hx)
    obtain ⟨ps', hps'⟩ := hname.cons_dollar hstop (safeBehindDollar_of_word ne_nil hisWord _)
    exact ⟨_, ps', hfilled, hps'⟩
  | dollar lone =>
    refine ⟨hhidden.tail (partsIn_lone lone), fun ps last hps => ?_⟩
    have hhead : s.head? ≠ some '$' := fun h => (lone _ h).1 rfl
    refine ⟨_, _, filled_lone lone, .more hstop.goes_on (.dollar ?_) hps⟩
    rwa [head?_filled hhead hrest]
  | char _ ne_dollar => exact absurd rfl ne_dollar

/-- What pieces leave a rest of is no empty text. -/
theorem TakesPieces.ne_nil (hP : IsFramed P) {c : Char} {ps : List Piece}
    (h : TakesPieces P stop s ps (c :: rest)) : s ≠ [] := by
  obtain ⟨u, rfl, -⟩ := h.frame hP
  simp

/-! ## Between quotes -/

theorem ne_of_startsSafe {c : Char} {ps : List Piece} (h : StartsSafe (ofPieces (.char c :: ps))) :
    c ≠ '$' ∧ c ≠ '\x7b' := by
  have hsafe : SafeBehindDollar (String.ofList (c :: (splitPieces ps).1)).toList := h
  rw [String.toList_ofList] at hsafe
  exact hsafe c rfl

/-- Behind a dollar that is put in what follows is read as before. -/
theorem TakesPieces.safeBehindDollar (hP : CanonicalRule P) {q : Char} (hq : q = '"' ∨ q = '\'')
    {ps : List Piece} (h : TakesPieces P (.quote q) s ps (q :: rest))
    (hstart : StartsSafe (ofPieces ps)) (scopes : List Scope) :
    SafeBehindDollar (filled mapping scopes s) := by
  have hsafe : s ≠ [] ∧ SafeBehindDollar s := by
    have hcons {c : Char} (hc : c ≠ '$' ∧ c ≠ '\x7b') (t : List Char) :
        c :: t ≠ [] ∧ SafeBehindDollar (c :: t) := by
      refine ⟨List.cons_ne_nil c t, fun x hx => ?_⟩
      rwa [← Option.some.inj hx]
    cases h with
    | done => exact hcons (by rcases hq with rfl | rfl <;> decide) rest
    | more goes_on first others =>
      cases first with
      | escaped => exact hcons (by decide) _
      | backslash => exact hcons (by decide) _
      | dollars => exact absurd rfl (ne_of_startsSafe hstart).1
      | @braces _ segment _ inner =>
        have htext := (hP _ _ _ inner).2
        cases segment with
        | text => cases htext
        | var => exact hstart.elim
        | call => exact hstart.elim
      | name => exact hstart.elim
      | dollar => exact absurd rfl (ne_of_startsSafe hstart).1
      | char => exact hcons (ne_of_startsSafe hstart) _
  have hhead : s.head? ≠ some '$' := fun h => (hsafe.2 '$' h).1 rfl
  intro x hx
  rw [head?_filled hhead hsafe.1] at hx
  exact hsafe.2 x hx

/-- Behind a backslash that is no escape the scanner keeps a character that is copied anyway. -/
theorem Unhidden.of_backslash {q x : Char} {outer : List Scope} (hq : x ≠ q) (hbackslash : x ≠ '\\')
    (h : Unhidden (.quoted q :: outer) ('\\' :: x :: s)) :
    x ≠ '$' ∧ Unhidden (.quoted q :: outer) (x :: s) := by
  have hdollar : x ≠ '$' := by
    rintro rfl
    refine h ?_
    rw [partsIn_escaped]
    exact List.mem_cons_self
  have hs : Unhidden (.quoted q :: outer) s := h.tail partsIn_escaped
  refine ⟨hdollar, ?_⟩
  rw [Unhidden, partsIn_char hdollar fun h => absurd h hbackslash, afterChar, if_neg hq]
  intro hmem
  rcases List.mem_cons.mp hmem with heq | hmem
  · cases heq
  · exact hs hmem

/-- What fits between quotes is read in the place of a parameter, in front of what follows it. -/
theorem TakesPiece.refilled_parameter (hP : Refills mapping depth P P') {q : Char}
    (hq : q = '"' ∨ q = '\'') {n : String} {sub : Substitution}
    (h : TakesPiece P (.quote q) s (.placeholder (.var n)) t) (hget : mapping.get? n = some sub)
    (hfits : Fits depth q sub.text.toList) {outer : List Scope}
    (hends : endsInDollar sub.text.toList = true →
      SafeBehindDollar (filled mapping (.quoted q :: outer) t))
    (hhidden : Unhidden (.quoted q :: outer) s) :
    Unhidden (.quoted q :: outer) t ∧ ∀ ps last,
      TakesPieces P' (.quote q) (filled mapping (.quoted q :: outer) t) ps last →
      ∃ ps', TakesPieces P' (.quote q) (filled mapping (.quoted q :: outer) s) ps' last := by
  obtain ⟨name, written, hrefers, rfl, -, rfl⟩ := h.refers_of_var hP.braced_of_var
  obtain ⟨qs, hqs⟩ := fits_iff.mp hfits
  refine ⟨hhidden.tail (partsIn_refers hrefers), fun ps last hps => ?_⟩
  rw [filled_refers hrefers, Part.replace, hget]
  exact TakesPieces.append_quoted hP.framed hq (hqs.mono hP.fits) hps hends

/-- A piece between quotes is read again, perhaps as several ones, in front of what the text behind
it is read as. -/
theorem TakesPiece.refilled_between (hP : Refills mapping depth P P') {q : Char}
    (hq : q = '"' ∨ q = '\'') {c : Char} {p : Piece} {ps : List Piece}
    (goes_on : (Stop.quote q).endsAt c = false) (h : TakesPiece P (.quote q) (c :: s) p t)
    (others : TakesPieces P (.quote q) t ps (q :: rest))
    (hfit : Fit mapping depth q (ofPieces (p :: ps)))
    (hsuits : ∀ a ∈ p.nestedArguments, a.Suits mapping depth) {outer : List Scope}
    (hhidden : Unhidden (.quoted q :: outer) (c :: s)) :
    Unhidden (.quoted q :: outer) t ∧ ∀ ps' last,
      TakesPieces P' (.quote q) (filled mapping (.quoted q :: outer) t) ps' last →
      ∃ ps'',
        TakesPieces P' (.quote q) (filled mapping (.quoted q :: outer) (c :: s)) ps'' last := by
  have ht : t ≠ [] := others.ne_nil hP.toIsFramed
  by_cases hc : c = '$'
  · subst hc
    by_cases hbound : ∃ n sub, p = .placeholder (.var n) ∧ mapping.get? n = some sub
    · obtain ⟨n, sub, rfl, hget⟩ := hbound
      obtain ⟨hsub, -⟩ := hfit
      obtain ⟨hfits, hends⟩ := hsub sub hget
      exact h.refilled_parameter hP hq hget hfits
        (fun h => others.safeBehindDollar hP.canonical hq (hends h) _) hhidden
    · have hp (n : String) (hn : p = .placeholder (.var n)) : mapping.get? n = none := by
        cases hget : mapping.get? n with
        | none => rfl
        | some sub => exact absurd ⟨n, sub, hn, hget⟩ hbound
      obtain ⟨hhidden', hpiece⟩ :=
        h.refilled hP (isUsual_quote hq) (delimited_quoted hq outer) hp hsuits hhidden ht
      refine ⟨hhidden', fun ps' last hps' => ?_⟩
      obtain ⟨u, ps'', hfilled, hps''⟩ := hpiece ps' last hps'
      exact ⟨ps'', by rwa [hfilled]⟩
  · cases h with
    | @escaped x _ escapes =>
      refine ⟨hhidden.tail partsIn_escaped, fun ps' last hps' => ⟨.char x :: ps', ?_⟩⟩
      rw [filled_escaped]
      exact .more goes_on (.escaped escapes) hps'
    | backslash plain =>
      obtain ⟨x, s, rfl⟩ := List.exists_cons_of_ne_nil ht
      have hx : x ≠ q ∧ x ≠ '\\' := by simpa [Stop.escapes] using plain x rfl
      obtain ⟨hdollar, hhidden'⟩ := hhidden.of_backslash hx.1 hx.2
      have hfilled : filled mapping (.quoted q :: outer) (x :: s) =
          x :: filled mapping (.quoted q :: outer) s :=
        (copies_between hdollar hx.2 hx.1 outer).filled mapping s
      refine ⟨hhidden', fun ps' last hps' => ⟨.char '\\' :: ps', ?_⟩⟩
      rw [hfilled] at hps'
      rw [filled_escaped]
      refine .more goes_on (.backslash fun y hy => ?_) hps'
      rw [← Option.some.inj hy]
      exact plain x rfl
    | char ne_backslash ne_dollar =>
      have hne : c ≠ q := by simpa [Stop.endsAt] using goes_on
      have hcopied := copies_between ne_dollar ne_backslash hne outer
      have hfilled : filled mapping (.quoted q :: outer) (c :: s) =
          c :: filled mapping (.quoted q :: outer) s := hcopied.filled mapping s
      refine ⟨hhidden.drop (u := [c]) hcopied, fun ps' last hps' => ⟨.char c :: ps', ?_⟩⟩
      rw [hfilled]
      exact .more goes_on (.char ne_backslash ne_dollar) hps'
    | dollars | braces | name | dollar => exact absurd rfl hc

/-- A text between quotes is read up to the closing quote once what fits is put in. The induction is
on the pieces of the text. -/
theorem TakesPieces.refilled_quoted (hP : Refills mapping depth P P') {q : Char}
    (hq : q = '"' ∨ q = '\'') {ps : List Piece} (h : TakesPieces P (.quote q) s ps (q :: rest))
    (hfit : Fit mapping depth q (ofPieces ps))
    (hsuits : ∀ a ∈ ps.flatMap Piece.nestedArguments, a.Suits mapping depth) {outer : List Scope}
    (hhidden : Unhidden (.quoted q :: outer) s) :
    Unhidden outer rest ∧ ∃ ps', TakesPieces P' (.quote q) (filled mapping (.quoted q :: outer) s)
      ps' (q :: filled mapping outer rest) := by
  generalize hlast : q :: rest = last at h
  induction h with
  | done =>
    subst hlast
    have hcopied := copies_closing hq outer
    have hfilled : filled mapping (.quoted q :: outer) (q :: rest) =
        q :: filled mapping outer rest := hcopied.filled mapping rest
    refine ⟨hhidden.drop (u := [q]) hcopied, [], ?_⟩
    rw [hfilled]
    exact .done (by simp [Stop.endsAt])
  | @more c u mid last p ps goes_on first others ih =>
    subst hlast
    rw [List.flatMap_cons] at hsuits
    obtain ⟨hmid, hpiece⟩ := first.refilled_between hP hq goes_on others hfit
      (fun a ha => hsuits a (List.mem_append_left _ ha)) hhidden
    obtain ⟨hrest, ps', hps'⟩ :=
      ih (fit_tail hfit) (fun a ha => hsuits a (List.mem_append_right _ ha)) hmid rfl
    exact ⟨hrest, hpiece ps' _ hps'⟩

end Rules

end Casebook.Template
