import Casebook.Proofs.Template.Refilling

/-!
# Calls with parameters replaced

An argument that is suited is read again, behind the same keyword, once its parameters are replaced,
and it ends where it ended. So do all arguments of a call, and the call is read again with room for
what was put in. A text between quotes was followed in `TakesPieces.refilled_quoted`; without quotes
an argument either keeps its text up to the first placeholder, and with it whether it has a keyword,
or is a parameter that becomes the text of another argument.
-/

namespace Casebook.Template

open Text Segment Substitution

/-! ## Keywords -/

/-- Texts that are the same up to a barrier. -/
def SharesFront (s t : List Char) : Prop :=
  ∃ u x s' t', IsBarrier x ∧ s = u ++ x :: s' ∧ t = u ++ x :: t'

/-- A text stands behind a keyword, or behind none, as another did. -/
def KeepsKeyword (key : Option String) (s t : List Char) : Prop :=
  match key with
  | none => (keyword s).1 = none → (keyword t).1 = none
  | some _ => t.head? = some '=' → s.head? = some '='

section

variable {s t : List Char} {key : Option String}

theorem sharesFront_barrier {x : Char} (hx : IsBarrier x) (s t : List Char) :
    SharesFront (x :: s) (x :: t) :=
  ⟨[], x, s, t, hx, rfl, rfl⟩

theorem SharesFront.cons (h : SharesFront s t) (c : Char) : SharesFront (c :: s) (c :: t) := by
  obtain ⟨u, x, s', t', hx, rfl, rfl⟩ := h
  exact ⟨c :: u, x, s', t', hx, rfl, rfl⟩

theorem SharesFront.head? (h : SharesFront s t) : t.head? = s.head? := by
  obtain ⟨u, x, s', t', -, rfl, rfl⟩ := h
  cases u <;> rfl

theorem SharesFront.keepsKeyword (h : SharesFront s t) (key : Option String) :
    KeepsKeyword key s t := by
  cases key with
  | some name => exact fun hhead => h.head? ▸ hhead
  | none =>
    obtain ⟨u, x, s', t', hx, rfl, rfl⟩ := h
    intro hnone
    rw [keyword_append_cons hx] at hnone ⊢
    exact hnone

theorem keyword_of_none (h : (keyword s).1 = none) : keyword s = (none, s) := by
  unfold keyword at h ⊢
  cases hkey : keyword? s with
  | none => rfl
  | some k =>
    rw [hkey] at h
    cases h

/-- What stands alone stays alone in front of blanks and the end of an argument. -/
theorem keepsKeyword_of_stands {literal blanks : List Char} (h : Stands key literal)
    (hblanks : ∀ x ∈ blanks, isBlank x = true) {c : Char}
    (hc : c = ',' ∨ c = ')') (s rest : List Char) :
    KeepsKeyword key s (literal ++ (blanks ++ c :: rest)) := by
  cases key with
  | none =>
    intro _
    rw [← List.append_assoc, keyword_append_cons (isBarrier_of_closes hc),
      keyword_append_blanks hblanks]
    exact h
  | some name =>
    intro hhead
    cases literal with
    | cons x literal => exact absurd hhead h
    | nil =>
      cases blanks with
      | nil =>
        obtain rfl := Option.some.inj hhead
        exact absurd rfl (isBarrier_of_closes hc).not_equals
      | cons x blanks =>
        obtain rfl := Option.some.inj hhead
        exact absurd (hblanks '=' List.mem_cons_self) (by decide)

end

section

variable {mapping : Dict Substitution} {depth : ℕ} {P P' : Rule Segment} {outer : List Scope}
  {s rest : List Char} {c : Char}

theorem Unhidden.end (hc : c = ',' ∨ c = ')') {blanks : List Char}
    (hblanks : ∀ x ∈ blanks, isBlank x = true) {b : Bool}
    (h : Unhidden (.arguments b :: outer) (blanks ++ c :: rest)) :
    Unhidden (afterChar c (.arguments true :: outer)) rest :=
  Unhidden.drop (by simpa using h) (copies_closes hc hblanks b outer)

/-- Blanks are read as characters. -/
theorem TakesPieces.eq_append_of_blanks {blanks : List Char}
    (hblanks : ∀ x ∈ blanks, isBlank x = true)
    (h : TakesPieces P .argument s (blanks.map .char) rest) : s = blanks ++ rest := by
  induction blanks generalizing s with
  | nil =>
    cases h
    rfl
  | cons x blanks ih =>
    have hx := hblanks x List.mem_cons_self
    cases h with
    | more _ first others =>
      have hmid := ih (fun y hy => hblanks y (List.mem_cons_of_mem x hy)) others
      cases first with
      | escaped escapes => cases escapes
      | char => rw [hmid]; rfl
      | backslash | dollars | dollar => exact absurd hx (by decide)

/-! ## Text without quotes -/

/-- Behind a dollar or what it begins no quote opens a string. -/
theorem TakesPiece.opensString_dollar (hP : CanonicalRule P) {stop : Stop} {p : Piece}
    (h : TakesPiece P stop ('$' :: s) p rest) {ps : List Piece} (hps : ∀ q ∈ ps, CanonicalPiece q)
    (b : Bool) :
    Segment.opensString b (ofPieces (p :: ps)) = Segment.opensString false (ofPieces ps) := by
  have hdollar : Segment.opensString b (ofPieces (.char '$' :: ps)) =
      Segment.opensString false (ofPieces ps) := by
    have hblank : isBlank '$' = false := by decide
    rw [opensString_ofPieces_char hps, hblank]
    simp
  have hcanonical := h.canonical hP
  cases h with
  | dollars => exact hdollar
  | dollar => exact hdollar
  | braces => exact opensString_ofPieces_placeholder hcanonical.2 b ps
  | name => exact opensString_ofPieces_placeholder hcanonical.2 b ps
  | char _ ne_dollar => exact absurd rfl ne_dollar

/-- A character that is no dollar is a piece whatever follows, if no backslash is dropped. -/
theorem TakesPiece.of_ne_dollar (P' : Rule Segment) {stop : Stop} (hplain : stop.IsPlain)
    {x : Char} (hx : x ≠ '$') {p : Piece} (h : TakesPiece P stop (x :: s) p rest) :
    rest = s ∧ p = .char x ∧ ∀ w, TakesPiece P' stop (x :: w) (.char x) w := by
  cases h with
  | escaped escapes =>
    rw [hplain] at escapes
    cases escapes
  | backslash => exact ⟨rfl, rfl, fun w => .backslash fun y _ => hplain y⟩
  | char ne_backslash ne_dollar => exact ⟨rfl, rfl, fun w => .char ne_backslash ne_dollar⟩
  | dollars | braces | name | dollar => exact absurd rfl hx

/-- In front of a character that is neither a quote nor a blank it does not matter what the scanner
has seen. -/
theorem TakesPieces.opensString_start (hP : CanonicalRule P) {ps : List Piece}
    (h : TakesPieces P .argument s ps rest) (hblank : Ends isBlank s)
    (hquote : ∀ x, s.head? = some x → ¬(x = '"' ∨ x = '\'')) :
    Segment.opensString true (ofPieces ps) = Segment.opensString false (ofPieces ps) := by
  cases h with
  | done => rfl
  | @more x u mid last p ps goes_on first others =>
    have hcanonical := others.canonical hP
    by_cases hx : x = '$'
    · subst hx
      rw [first.opensString_dollar hP hcanonical, first.opensString_dollar hP hcanonical]
    · obtain ⟨rfl, rfl, -⟩ := first.of_ne_dollar P Stop.isPlain_argument hx
      have hne : ¬x = '"' ∧ ¬x = '\'' := not_or.mp (hquote x rfl)
      rw [opensString_ofPieces_char hcanonical, opensString_ofPieces_char hcanonical,
        ends_cons.mp hblank]
      simp [hne]

/-- A text without quotes and without parameters is read up to the end of the argument. The
induction is on its pieces; behind each the scanner knows whether a quote opens a string. -/
theorem TakesPieces.refilled_argument (hP : Refills mapping depth P P') (hc : c = ',' ∨ c = ')')
    {ps : List Piece} (h : TakesPieces P .argument s ps (c :: rest)) {b : Bool}
    (hquotes : Segment.opensString b (ofPieces ps) = false)
    (hvars : ∀ n, .placeholder (.var n) ∈ ps → mapping.get? n = none)
    (hsuits : ∀ a ∈ ps.flatMap Piece.nestedArguments, a.Suits mapping depth)
    (hhidden : Unhidden (.arguments b :: outer) s) :
    Unhidden (afterChar c (.arguments true :: outer)) rest ∧
      SharesFront s (filled mapping (.arguments b :: outer) s) ∧
      ∃ ps', TakesPieces P' .argument (filled mapping (.arguments b :: outer) s) ps'
        (c :: filled mapping (afterChar c (.arguments true :: outer)) rest) := by
  generalize hlast : c :: rest = last at h
  induction h generalizing b with
  | done =>
    subst hlast
    have hnone : ∀ x ∈ ([] : List Char), isBlank x = true := by simp
    have hcopied : Copies (.arguments b :: outer) [c] (afterChar c (.arguments true :: outer)) :=
      copies_closes hc hnone b outer
    have hfilled : filled mapping (.arguments b :: outer) (c :: rest) =
        c :: filled mapping (afterChar c (.arguments true :: outer)) rest :=
      hcopied.filled mapping rest
    rw [hfilled]
    exact ⟨hhidden.drop (u := [c]) hcopied, sharesFront_barrier (isBarrier_of_closes hc) _ _, [],
      .done (by simpa [Stop.endsAt] using hc)⟩
  | @more x u mid last p ps goes_on first others ih =>
    subst hlast
    rw [List.flatMap_cons] at hsuits
    have hsuits' : ∀ a ∈ ps.flatMap Piece.nestedArguments, a.Suits mapping depth :=
      fun a ha => hsuits a (List.mem_append_right _ ha)
    have hvars' : ∀ n, .placeholder (.var n) ∈ ps → mapping.get? n = none :=
      fun n hn => hvars n (List.mem_cons_of_mem _ hn)
    have hcanonical := others.canonical hP.canonical
    by_cases hx : x = '$'
    · subst hx
      rw [first.opensString_dollar hP.canonical hcanonical] at hquotes
      obtain ⟨hhidden', hpiece⟩ := first.refilled hP isUsual_argument (delimited_arguments b outer)
        (fun n hn => hvars n (hn ▸ List.mem_cons_self))
        (fun a ha => hsuits a (List.mem_append_left _ ha)) hhidden (others.ne_nil hP.toIsFramed)
      obtain ⟨hrest, -, ps', hps'⟩ := ih hquotes hvars' hsuits' hhidden' rfl
      obtain ⟨t, ps'', hfilled, hps''⟩ := hpiece ps' _ hps'
      rw [hfilled]
      exact ⟨hrest, sharesFront_barrier isBarrier_dollar _ _, ps'', hps''⟩
    · obtain ⟨rfl, rfl, hpiece⟩ := first.of_ne_dollar P' Stop.isPlain_argument hx
      rw [opensString_ofPieces_char hcanonical, Bool.or_eq_false_iff] at hquotes
      have hcopied := copies_char (.arguments b :: outer) hx fun _ => rfl
      rw [afterChar_arguments goes_on hquotes.1] at hcopied
      have hfilled : filled mapping (.arguments b :: outer) (x :: mid) = x :: _ :=
        hcopied.filled mapping mid
      obtain ⟨hrest, hfront, ps', hps'⟩ :=
        ih hquotes.2 hvars' hsuits' (hhidden.drop (u := [x]) hcopied) rfl
      rw [hfilled]
      exact ⟨hrest, hfront.cons x, .char x :: ps', .more goes_on (hpiece _) hps'⟩

/-! ## Values -/

/-- A value is read again, up to what ended it, and behind the keyword it had. -/
structure ReadAgain (P' : Rule Segment) (key : Option String) (s t : List Char) (c : Char)
    (rest : List Char) : Prop where
  starts : Ends isBlank t
  keeps : KeepsKeyword key s t
  value : ∃ a mid, TakesValue P' key t a mid ∧ skipBlanks mid = c :: rest

variable {key : Option String} {t : List Char}

theorem ReadAgain.of_sharesFront (h : SharesFront s t) (hblank : Ends isBlank s)
    (hvalue : ∃ a mid, TakesValue P' key t a mid ∧ skipBlanks mid = c :: rest) :
    ReadAgain P' key s t c rest := by
  refine ⟨fun x hx => hblank x ?_, h.keepsKeyword key, hvalue⟩
  rwa [← h.head?]

/-- A quoted value stays between its quotes. -/
theorem readAgain_quoted (hP : Refills mapping depth P P') (hc : c = ',' ∨ c = ')') {q : Char}
    (hq : q = '"' ∨ q = '\'') {ps : List Piece} {mid : List Char}
    (h : TakesPieces P (.quote q) s ps (q :: mid)) (hmid : skipBlanks mid = c :: rest)
    (hfit : Fit mapping depth q (ofPieces ps))
    (hsuits : ∀ a ∈ ps.flatMap Piece.nestedArguments, a.Suits mapping depth)
    (hhidden : Unhidden (.arguments true :: outer) (q :: s)) :
    Unhidden (afterChar c (.arguments true :: outer)) rest ∧
      ReadAgain P' key (q :: s) (filled mapping (.arguments true :: outer) (q :: s)) c
        (filled mapping (afterChar c (.arguments true :: outer)) rest) := by
  have hopens := copies_opening hq outer
  obtain ⟨hmid', ps', hps'⟩ := h.refilled_quoted hP hq hfit hsuits (hhidden.drop (u := [q]) hopens)
  obtain ⟨blanks, heq, hblanks⟩ := exists_eq_skipBlanks_append mid
  rw [hmid] at heq
  have hfilled : filled mapping (.arguments true :: outer) (q :: s) =
      q :: filled mapping (.quoted q :: .arguments false :: outer) s := hopens.filled mapping s
  rw [heq] at hmid' hps'
  rw [filled_end hc hblanks] at hps'
  rw [hfilled]
  have hfront := sharesFront_barrier (isBarrier_quote hq) s
    (filled mapping (.quoted q :: .arguments false :: outer) s)
  have hstart : Ends isBlank (q :: s) := ends_cons.mpr (isBarrier_quote hq).not_blank
  exact ⟨hmid'.end hc hblanks,
    .of_sharesFront hfront hstart ⟨_, _, .quoted hq hps', skipBlanks_end hc hblanks _⟩⟩

/-- A value without quotes and without parameters is read again as long as it was. -/
theorem readAgain_unquoted (hP : Refills mapping depth P P') (hc : c = ',' ∨ c = ')')
    {ps : List Piece} (h : TakesPieces P .argument s ps (c :: rest))
    (ne_nil : trimLast (ofPieces ps) ≠ []) (hblank : Ends isBlank s)
    (hquote : ∀ x, s.head? = some x → ¬(x = '"' ∨ x = '\''))
    (hquotes : Segment.opensString false (ofPieces ps) = false)
    (hvars : ∀ n, .placeholder (.var n) ∈ ps → mapping.get? n = none)
    (hsuits : ∀ a ∈ ps.flatMap Piece.nestedArguments, a.Suits mapping depth)
    (hhidden : Unhidden (.arguments true :: outer) s) :
    Unhidden (afterChar c (.arguments true :: outer)) rest ∧
      ReadAgain P' key s (filled mapping (.arguments true :: outer) s) c
        (filled mapping (afterChar c (.arguments true :: outer)) rest) := by
  have hstart : Segment.opensString true (ofPieces ps) = false := by
    rw [h.opensString_start hP.canonical hblank hquote, hquotes]
  obtain ⟨hrest, hfront, ps', hps'⟩ := h.refilled_argument hP hc hstart hvars hsuits hhidden
  have hne : trimLast (ofPieces ps') ≠ [] := by
    have hhead := hfront.head?
    cases h with
    | done => exact absurd rfl ne_nil
    | more goes_on =>
      obtain ⟨t, ht⟩ := List.head?_eq_some_iff.mp hhead
      rw [ht] at hps'
      exact hps'.trimLast_ne_nil (fun h => nomatch (hP.framed.canonical _ _ _ h).2) (fun _ => rfl)
        (ends_cons.mp hblank) goes_on
  have hquote' : ∀ x, (filled mapping (.arguments true :: outer) s).head? = some x →
      ¬(x = '"' ∨ x = '\'') := fun x hx => hquote x (hfront.head? ▸ hx)
  have hvalue := takesValue_of_pieces key hquote' hps' hne
  exact ⟨hrest, .of_sharesFront hfront hblank ⟨_, _, hvalue, skipBlanks_closes hc _⟩⟩

/-- A parameter that is all of an argument is replaced by another, which is read in its place. -/
theorem readAgain_parameter (hP : Refills mapping depth P P') (hc : c = ',' ∨ c = ')')
    {n : String} {sub : Substitution} (hget : mapping.get? n = some sub)
    (hstands : Stands key sub.literal.toList)
    {blanks : List Char} (hblanks : ∀ x ∈ blanks, isBlank x = true)
    (h : TakesPieces P .argument s (.placeholder (.var n) :: blanks.map .char) (c :: rest))
    (hhidden : Unhidden (.arguments true :: outer) s) :
    Unhidden (afterChar c (.arguments true :: outer)) rest ∧
      ReadAgain P' key s (filled mapping (.arguments true :: outer) s) c
        (filled mapping (afterChar c (.arguments true :: outer)) rest) := by
  obtain ⟨a, hliteral, hreread⟩ := hP.rereads hget
  cases h with
  | more _ first others =>
    obtain ⟨name, written, hrefers, heq, -, rfl⟩ := first.refers_of_var hP.braced_of_var
    obtain rfl := others.eq_append_of_blanks hblanks
    have hfilled : filled mapping (.arguments true :: outer) (written ++ (blanks ++ c :: rest)) =
        a.raw.toList ++
          (blanks ++ c :: filled mapping (afterChar c (.arguments true :: outer)) rest) := by
      rw [filled_refers hrefers, Part.replace, hget, ← hliteral,
        ← filled_end hc hblanks false outer rest]
      rfl
    rw [heq] at hhidden ⊢
    have hrest := hhidden.tail (partsIn_refers hrefers)
    refine ⟨Unhidden.end hc hblanks hrest, ?_⟩
    rw [hfilled]
    obtain ⟨mid, hvalue, hmid⟩ := hreread.value key hc rest
    obtain ⟨-, -, -, hagain⟩ := hvalue.reread hP.framed hmid
    obtain ⟨mid', hvalue', hmid'⟩ := hagain key blanks c
      (filled mapping (afterChar c (.arguments true :: outer)) rest) hblanks hc
    rw [Argument.raw_withKey] at hvalue'
    rw [hliteral] at hstands
    refine ⟨?_, keepsKeyword_of_stands hstands hblanks hc _ _, _, mid', hvalue', hmid'⟩
    intro x hx
    obtain ⟨y, more, hraw⟩ := List.exists_cons_of_ne_nil hreread.ne_nil
    have hstarts := hreread.starts
    rw [hraw] at hx hstarts
    obtain rfl := Option.some.inj hx
    exact ends_cons.mp hstarts

/-- A value is read again if its argument is suited. -/
theorem TakesValue.refilled (hP : Refills mapping depth P P') (hc : c = ',' ∨ c = ')')
    {a : Argument} {mid : List Char} (h : TakesValue P key s a mid)
    (hmid : skipBlanks mid = c :: rest) (hblank : Ends isBlank s)
    (hsuits : ∀ a' ∈ nestedInArg a, a'.Suits mapping depth)
    (hhidden : Unhidden (.arguments true :: outer) s) :
    Unhidden (afterChar c (.arguments true :: outer)) rest ∧
      ReadAgain P' key s (filled mapping (.arguments true :: outer) s) c
        (filled mapping (afterChar c (.arguments true :: outer)) rest) := by
  have hself := hsuits a (mem_nestedInArg_self a)
  cases h with
  | @quoted q u _ ps quote body =>
    have hinner : ∀ a' ∈ ps.flatMap Piece.nestedArguments, a'.Suits mapping depth := by
      intro a' ha'
      rw [← nestedInSegments_ofPieces] at ha'
      exact hsuits a' (List.mem_cons_of_mem _ ha')
    exact readAgain_quoted hP hc quote body hmid hself hinner hhidden
  | @unquoted x u _ ps no_quote body ne_nil =>
    obtain rfl := body.rest_of_skipBlanks hmid
    have hinner : ∀ a' ∈ ps.flatMap Piece.nestedArguments, a'.Suits mapping depth := by
      intro a' ha'
      rw [← nestedInSegments_ofPieces, ← nestedInSegments_trimLast] at ha'
      refine hsuits a' ?_
      rw [nestedInArg_unquoted]
      exact List.mem_cons_of_mem _ ha'
    rcases cases_of_suits hP.canonical body hself with
      ⟨hquotes, hvars⟩ | ⟨n, sub, blanks, rfl, hblanks, hget, hstands⟩
    · have hquote : ∀ y, (x :: u).head? = some y → ¬(y = '"' ∨ y = '\'') := by
        intro y hy
        rwa [← Option.some.inj hy]
      exact readAgain_unquoted hP hc body ne_nil hblank hquote hquotes hvars hinner hhidden
    · exact readAgain_parameter hP hc hget hstands hblanks body hhidden

/-! ## Arguments -/

/-- A value behind a word, an equals sign and blanks is an argument with that keyword. -/
theorem takesArgument_of_keyword {before w blanks behind : List Char}
    (hbefore : ∀ x ∈ before, isBlank x = true) (hw : w ≠ []) (hisWord : ∀ x ∈ w, isWord x = true)
    (hblanks : ∀ x ∈ blanks, isBlank x = true) (hbehind : ∀ x ∈ behind, isBlank x = true)
    (hstarts : Ends isBlank s) (hsingle : (behind ++ s).head? ≠ some '=') {a : Argument}
    (h : TakesValue P (some (String.ofList w)) s a rest) :
    TakesArgument P (before ++ (w ++ (blanks ++ '=' :: (behind ++ s)))) a rest := by
  have hstart : Ends isBlank (w ++ (blanks ++ '=' :: (behind ++ s))) := by
    obtain ⟨x, w, rfl⟩ := List.exists_cons_of_ne_nil hw
    exact ends_cons.mpr (isBlank_eq_false_of_isWord (hisWord x List.mem_cons_self))
  have hkey : keyword? (w ++ (blanks ++ '=' :: (behind ++ s))) =
      some (String.ofList w, behind ++ s) :=
    keyword?_eq_some_iff_append.mpr ⟨w, blanks, rfl, hw, hisWord, hblanks, hsingle, rfl⟩
  rw [TakesArgument, skipBlanks_append_of_ends hbefore hstart, keyword, hkey]
  simp only
  rw [skipBlanks_append_of_ends hbehind hstarts]
  exact h

/-- An argument is read again, with the same keyword. -/
theorem TakesArgument.refilled (hP : Refills mapping depth P P') (hc : c = ',' ∨ c = ')')
    {a : Argument} {mid : List Char} (h : TakesArgument P s a mid)
    (hmid : skipBlanks mid = c :: rest) (hsuits : ∀ a' ∈ nestedInArg a, a'.Suits mapping depth)
    (hhidden : Unhidden (.arguments true :: outer) s) :
    Unhidden (afterChar c (.arguments true :: outer)) rest ∧ ∃ a' mid',
      TakesArgument P' (filled mapping (.arguments true :: outer) s) a' mid' ∧
      skipBlanks mid' = c :: filled mapping (afterChar c (.arguments true :: outer)) rest ∧
      a'.key = a.key := by
  obtain ⟨before, hs, hbefore⟩ := exists_eq_skipBlanks_append s
  have hblanks := copies_blanks (delimited_arguments true outer) hbefore
  unfold TakesArgument keyword at h
  cases hkey : keyword? (skipBlanks s) with
  | none =>
    rw [hkey] at h
    simp only [skipBlanks_of_ends (ends_skipBlanks s)] at h
    rw [hs] at hhidden
    obtain ⟨hrest, hagain⟩ :=
      h.refilled hP hc hmid (ends_skipBlanks s) hsuits (hhidden.drop hblanks)
    obtain ⟨a', mid', hvalue, hmid'⟩ := hagain.value
    have hnone := keyword_of_none (hagain.keeps (by rw [keyword, hkey]))
    refine ⟨hrest, a', mid', ?_, hmid', hvalue.key_eq.trans h.key_eq.symm⟩
    rw [hs, hblanks.filled, TakesArgument, skipBlanks_append_of_ends hbefore hagain.starts, hnone,
      skipBlanks_of_ends hagain.starts]
    exact hvalue
  | some k =>
    obtain ⟨name, after⟩ := k
    rw [hkey] at h
    simp only at h
    obtain ⟨w, blanks, heq, hw, hisWord, hmore, hsingle, hname⟩ :=
      keyword?_eq_some_iff_append.mp hkey
    obtain ⟨behind, hafter, hbehind⟩ := exists_eq_skipBlanks_append after
    have hcopied := hblanks.append (copies_keyword hw hisWord hmore hbehind outer)
    have hjoin (t : List Char) : before ++ (w ++ (blanks ++ (['='] ++ behind))) ++ t =
        before ++ (w ++ (blanks ++ '=' :: (behind ++ t))) := by simp
    have hs' : s = before ++ (w ++ (blanks ++ (['='] ++ behind))) ++ skipBlanks after := by
      rw [hjoin, ← hafter, ← heq, ← hs]
    rw [hs'] at hhidden
    obtain ⟨hrest, hagain⟩ :=
      h.refilled hP hc hmid (ends_skipBlanks after) hsuits (hhidden.drop hcopied)
    obtain ⟨a', mid', hvalue, hmid'⟩ := hagain.value
    refine ⟨hrest, a', mid', ?_, hmid', hvalue.key_eq.trans h.key_eq.symm⟩
    have hsingle' : (behind ++ filled mapping (.arguments true :: outer) (skipBlanks after)).head? ≠
        some '=' := by
      cases behind with
      | nil => exact fun hhead => hsingle (hafter ▸ hagain.keeps hhead)
      | cons x behind =>
        intro hhead
        obtain rfl := Option.some.inj hhead
        exact absurd (hbehind '=' List.mem_cons_self) (by decide)
    rw [hs', hcopied.filled, hjoin]
    rw [← hname] at hvalue
    exact takesArgument_of_keyword hbefore hw hisWord hmore hbehind hagain.starts hsingle' hvalue

theorem TakesMore.refilled (hP : Refills mapping depth P P') {args : List Argument}
    (h : TakesMore P s args rest) (hsuits : ∀ a ∈ nestedInArgs args, a.Suits mapping depth)
    (hhidden : Unhidden (.arguments true :: outer) s) :
    Unhidden outer rest ∧ ∃ args',
      TakesMore P' (filled mapping (.arguments true :: outer) s) args' (filled mapping outer rest) ∧
      args'.map Argument.key = args.map Argument.key := by
  induction h with
  | last first closed =>
    rw [nestedInArgs, nestedInArgs, List.append_nil] at hsuits
    obtain ⟨hrest, a', mid', ha', hclosed, hkey⟩ :=
      first.refilled hP (.inr rfl) closed hsuits hhidden
    refine ⟨hrest, [a'], .last ha' hclosed, ?_⟩
    rw [List.map_singleton, List.map_singleton, hkey]
  | more first comma _ ih =>
    rw [nestedInArgs] at hsuits
    obtain ⟨hnext, a', mid', ha', hcomma, hkey⟩ := first.refilled hP (.inl rfl) comma
      (fun a ha => hsuits a (List.mem_append_left _ ha)) hhidden
    obtain ⟨hrest, args', hargs', hkeys⟩ :=
      ih (fun a ha => hsuits a (List.mem_append_right _ ha)) hnext
    refine ⟨hrest, a' :: args', .more ha' hcomma hargs', ?_⟩
    rw [List.map_cons, List.map_cons, hkey, hkeys]

theorem TakesArguments.refilled (hP : Refills mapping depth P P') {args : List Argument}
    (h : TakesArguments P s args rest) (hsuits : ∀ a ∈ nestedInArgs args, a.Suits mapping depth)
    (hhidden : Unhidden (.arguments true :: outer) s) :
    Unhidden outer rest ∧ ∃ args',
      TakesArguments P' (filled mapping (.arguments true :: outer) s) args'
        (filled mapping outer rest) ∧
      args'.map Argument.key = args.map Argument.key := by
  obtain ⟨blanks, heq, hblanks⟩ := exists_eq_skipBlanks_append s
  have hcopied := copies_blanks (delimited_arguments true outer) hblanks
  cases h with
  | none closed =>
    rw [closed] at heq
    rw [heq] at hhidden ⊢
    refine ⟨hhidden.end (.inr rfl) hblanks, [], .none ?_, rfl⟩
    rw [filled_end (.inr rfl) hblanks]
    exact skipBlanks_end (.inr rfl) hblanks _
  | some _ all =>
    rw [heq] at hhidden
    obtain ⟨hrest, args', hargs', hkeys⟩ := all.refilled hP hsuits (hhidden.drop hcopied)
    refine ⟨hrest, args', ?_, hkeys⟩
    rw [heq, hcopied.filled]
    exact hargs'.arguments.append_blanks hblanks

/-! ## Placeholders -/

/-- A call in braces is read again up to its closing brace. -/
theorem TakesName.refilled (hP : Refills mapping depth P P') {scopes : List Scope}
    (hscopes : Delimited scopes) {call : Call} {mid : List Char}
    (h : TakesName P s (.call call) mid) (hclosed : skipBlanks mid = '\x7d' :: rest)
    (hsuits : ∀ a ∈ nestedInArgs call.args, a.Suits mapping depth)
    (hhidden : Unhidden scopes ('$' :: '\x7b' :: s)) :
    ∃ s' call' mid', filled mapping scopes ('$' :: '\x7b' :: s) = '$' :: '\x7b' :: s' ∧
      TakesName P' s' (.call call') mid' ∧
      skipBlanks mid' = '\x7d' :: filled mapping (begun scopes) rest ∧
      call'.name = call.name ∧ call'.args.map Argument.key = call.args.map Argument.key ∧
      Unhidden (begun scopes) rest := by
  cases h with
  | @call _ name mid' next _ args word_eq ne_nil opened all =>
    obtain ⟨before, after, heq, hbefore, hisWord, hafter⟩ := exists_eq_append_word s
    rw [word_eq, opened] at heq
    rw [word_eq] at hisWord
    rw [heq] at hhidden ⊢
    have hnext := hhidden.tail (partsIn_call hbefore hisWord ne_nil hafter)
    obtain ⟨hmid, args', hargs', hkeys⟩ := all.refilled hP hsuits hnext
    -- Behind the arguments stand blanks and the closing brace.
    obtain ⟨blanks, hblanks, hisBlank⟩ := exists_eq_skipBlanks_append mid
    rw [hclosed] at hblanks
    have hend : Copies (begun scopes) (blanks ++ ['\x7d']) (begun scopes) :=
      (copies_blanks hscopes.begun hisBlank).append (copies_brace hscopes)
    have hfilled := hend.filled mapping rest
    rw [List.append_assoc, List.singleton_append, List.append_assoc, List.singleton_append,
      ← hblanks] at hfilled
    rw [hfilled] at hargs'
    rw [hblanks, ← List.singleton_append, ← List.append_assoc] at hmid
    obtain ⟨mid'', hword, hopened⟩ := exists_word_skipBlanks
      (filled mapping (.arguments true :: begun scopes) next) hbefore hisWord hafter
      (by decide : isWord '(' = false) (by decide)
    have hclosed' : skipBlanks (blanks ++ '\x7d' :: filled mapping (begun scopes) rest) =
        '\x7d' :: filled mapping (begun scopes) rest :=
      skipBlanks_append_of_ends hisBlank (ends_cons.mpr (by decide))
    exact ⟨_, ⟨String.ofList name, args'⟩, _,
      filled_call mapping scopes hbefore hisWord ne_nil hafter next,
      .call hword ne_nil hopened hargs', hclosed', rfl, hkeys, hmid.drop hend⟩

end

/-- The induction is on the room for placeholders. -/
theorem refills_takesPlaceholder {mapping : Dict Substitution} {depth more : ℕ}
    (hdepth : depth ≤ more)
    (hrereads : ∀ n sub, mapping.get? n = some sub →
      ∃ a : Argument, sub.literal = a.raw ∧ Rereads (TakesPlaceholder more) a) (room : ℕ) :
    Refills mapping depth (TakesPlaceholder room) (TakesPlaceholder (room + more)) where
  toIsFramed := isFramed_takesPlaceholder room
  framed := isFramed_takesPlaceholder (room + more)
  mono _ _ _ h := h.mono (Nat.le_add_right room more)
  fits _ _ _ h := h.mono (by omega)
  rereads {n sub} h := by
    obtain ⟨a, hliteral, ha⟩ := hrereads n sub h
    exact ⟨a, hliteral, ha.mono (Nat.le_add_left more room)⟩
  braced_of_var h := by
    cases room with
    | zero => exact h.elim
    | succ room => exact takesPlaceholder_var_iff.mp h
  call {scopes s rest c} h hscopes hsuits hhidden := by
    cases room with
    | zero => exact h.elim
    | succ room =>
      obtain ⟨mid, hcall, hclosed⟩ := h
      have hP := refills_takesPlaceholder hdepth hrereads room
      obtain ⟨s', c', mid', hfilled, hcall', hclosed', hname, hkeys, hrest⟩ :=
        hcall.refilled hP hscopes hclosed hsuits hhidden
      have hroom : room + 1 + more = room + more + 1 := by omega
      rw [hroom]
      exact ⟨s', c', hfilled, ⟨mid', hcall', hclosed'⟩, hname, hkeys, hrest⟩

end Casebook.Template
