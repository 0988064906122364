import Casebook.Proofs.Template.Derivation
import Mathlib.Data.List.Induction

/-!
# What is derived is read, and what is read is derived

Both directions go tree by tree and rule by rule. A placeholder needs room for one level, and what
is in it has fewer openings, so room for as many levels as there are openings is enough.
-/

namespace Casebook.Template

open Text

/-! ## Blanks at the end -/

/-- A text and the segments behind it, of which the last one ends in no blank if it is a text. -/
def EndsInNoBlank (r : List Char × List Segment) : Prop :=
  (r.2 = [] ∧ trimEnd r.1 = r.1) ∨ (r.2 ≠ [] ∧ trimLast r.2 = r.2)

theorem EndsInNoBlank.trimLast_eq {r : List Char × List Segment} (h : EndsInNoBlank r) :
    trimLast (consText r.1 r.2) = consText r.1 r.2 := by
  rcases h with ⟨hnil, htext⟩ | ⟨hne, hsegments⟩
  · rw [hnil, trimLast_consText_nil, htext]
  · rw [trimLast_consText hne, hsegments]

/-- Pieces that are split into nothing are none. -/
theorem eq_nil_of_splitPieces {ps : List Piece} (h : splitPieces ps = ([], [])) : ps = [] := by
  cases ps with
  | nil => rfl
  | cons p ps => cases p <;> cases h

theorem endsInNoBlank_splitPieces {ps : List Piece} (hps : ∀ p ∈ ps, CanonicalPiece p)
    (hlast : ∀ c, ps.getLast? = some (.char c) → isBlank c = false) :
    EndsInNoBlank (splitPieces ps) := by
  induction ps with
  | nil => exact .inl ⟨rfl, rfl⟩
  | cons p ps ih =>
    have hmore := ih (fun q hq => hps q (List.mem_cons_of_mem p hq)) fun c hc =>
      hlast c (by rw [List.getLast?_cons, hc]; rfl)
    cases p with
    | char c =>
      rcases hmore with ⟨hnil, htext⟩ | hmore
      · refine .inl ⟨hnil, ?_⟩
        show trimEnd ([c] ++ (splitPieces ps).1) = [c] ++ (splitPieces ps).1
        by_cases hnone : (splitPieces ps).1 = []
        · -- Then this is the last character.
          obtain rfl := eq_nil_of_splitPieces (Prod.ext hnone hnil)
          exact trimEnd_concat (hlast c rfl) []
        · rw [trimEnd_append, htext, if_neg hnone]
      · exact .inr hmore
    | placeholder segment =>
      have hsegment := (hps _ List.mem_cons_self).2
      refine .inr ⟨List.cons_ne_nil _ _, ?_⟩
      rw [splitPieces, trimLast_cons (.inl hsegment), hmore.trimLast_eq]

/-- Segments of pieces that end in no blank are left as they are. -/
theorem trimLast_ofPieces {ps : List Piece} (hps : ∀ p ∈ ps, CanonicalPiece p)
    (hlast : ∀ c, ps.getLast? = some (.char c) → isBlank c = false) :
    trimLast (ofPieces ps) = ofPieces ps :=
  (endsInNoBlank_splitPieces hps hlast).trimLast_eq

/-- The text of an item that is no blank ends in none, where no backslash is dropped. -/
theorem Item.Fits.trimEnd_text {stop : Stop} (hplain : stop.IsPlain) {follow : List Char} {i : Item}
    (h : i.Fits stop follow) (hblank : ∀ c, i = .char c → isBlank c = false) :
    trimEnd i.text = i.text := by
  cases i with
  | char c => exact trimEnd_concat (hblank c rfl) []
  | escaped c =>
    have hnone := hplain c
    rw [show stop.escapes c = true from h] at hnone
    cases hnone
  | dollars => exact trimEnd_concat (by decide) ['$']
  | name name =>
    obtain ⟨init, c, rfl⟩ : ∃ init c, name = init ++ [c] :=
      ⟨_, _, (List.dropLast_concat_getLast h.1.ne_nil).symm⟩
    exact trimEnd_concat (isBlank_eq_false_of_isWord (h.1.isWord c (by simp))) ('$' :: init)
  | braces inner =>
    obtain ⟨u, hu⟩ : ∃ u, inner.text = u ++ ['\x7d'] := by
      cases inner with
      | var before name after => exact ⟨before ++ (name ++ after), by simp [Inner.text]⟩
      | call before name gap arguments after =>
        exact ⟨before ++ (name ++ (gap ++ '(' :: (arguments.text ++ after))), by
          simp [Inner.text]⟩
    rw [Item.text, hu]
    exact trimEnd_concat (by decide) ('$' :: '\x7b' :: u)

theorem FitsItems.trimEnd_text {stop : Stop} (hplain : stop.IsPlain) {follow : List Char}
    {items : List Item} (h : FitsItems stop follow items)
    (hlast : ∀ c, items.getLast? = some (.char c) → isBlank c = false) :
    trimEnd (textOfItems items) = textOfItems items := by
  rcases List.eq_nil_or_concat items with rfl | ⟨init, i, rfl⟩
  · rfl
  · obtain ⟨-, hi⟩ := fitsItems_append.mp (List.concat_eq_append ▸ h)
    obtain ⟨-, hi, -⟩ := hi
    have htrim := hi.trimEnd_text hplain fun c hc => hlast c (by simp [hc])
    obtain ⟨c, t, ht⟩ := i.exists_text_eq_cons
    have hne : i.text ≠ [] := ht ▸ List.cons_ne_nil c t
    rw [List.concat_eq_append, textOfItems_append, textOfItems, textOfItems, List.append_nil,
      trimEnd_append, htrim, if_neg hne]

/-- The segments of an argument end in no blank if its text does. -/
theorem FitsItems.trimLast_segments {items : List Item} (h : FitsItems .argument [] items)
    (hlast : ∀ c, items.getLast? = some (.char c) → isBlank c = false)
    (hcanonical : ∀ p ∈ piecesOfItems items, CanonicalPiece p) :
    trimLast (ofPieces (piecesOfItems items)) = ofPieces (piecesOfItems items) := by
  refine trimLast_ofPieces hcanonical fun c hc => ?_
  rcases List.eq_nil_or_concat items with rfl | ⟨init, i, rfl⟩
  · cases hc
  · obtain ⟨-, hi⟩ := fitsItems_append.mp (List.concat_eq_append ▸ h)
    obtain ⟨-, hi, -⟩ := hi
    rw [List.concat_eq_append, piecesOfItems_append, piecesOfItems, piecesOfItems,
      List.getLast?_concat] at hc
    cases i with
    | char x =>
      cases hc
      exact hlast c (by simp)
    | escaped x => cases hi
    | dollars =>
      cases hc
      decide
    | name | braces => cases hc

theorem ofPieces_ne_nil {items : List Item} (h : items ≠ []) :
    ofPieces (piecesOfItems items) ≠ [] := by
  obtain ⟨i, items, rfl⟩ := List.exists_cons_of_ne_nil h
  cases i <;> exact List.cons_ne_nil _ _

/-! ## What is derived is read -/

/-- A rule takes the placeholders that fit and have less than so many openings in them. -/
def TakesInner (P : Rule Segment) (k : ℕ) : Prop :=
  ∀ inner : Inner, inner.Fits → openings inner.text < k →
    ∀ rest, P (inner.text ++ rest) inner.segment rest

section Completeness

variable {P : Rule Segment} {k : ℕ} {stop : Stop} {s rest : List Char}

theorem Item.Fits.takesPiece (hP : TakesInner P k) {i : Item} (h : i.Fits stop s)
    (hk : openings i.text ≤ k) : TakesPiece P stop (i.text ++ s) i.piece s := by
  cases i with
  | char c =>
    obtain ⟨hbackslash, hdollar⟩ := h
    by_cases hc : c = '\\'
    · subst hc
      exact .backslash (hbackslash rfl)
    by_cases hc' : c = '$'
    · subst hc'
      exact .dollar (hdollar rfl)
    exact .char hc hc'
  | escaped c => exact .escaped h
  | dollars => exact .dollars
  | name name => exact .name (word_append_of_ends h.1.isWord h.2) h.1.ne_nil
  | braces inner =>
    rw [Item.text, openings_braces] at hk
    exact .braces (hP inner h hk s)

/-- Items in front of what is taken are taken with it. -/
theorem FitsItems.takesPieces (hP : TakesInner P k) {items : List Item}
    (h : FitsItems stop s items) (hk : openings (textOfItems items) ≤ k) {ps : List Piece}
    (hmore : TakesPieces P stop s ps rest) :
    TakesPieces P stop (textOfItems items ++ s) (piecesOfItems items ++ ps) rest := by
  induction items with
  | nil => exact hmore
  | cons i items ih =>
    obtain ⟨hstart, hi, hitems⟩ := h
    rw [textOfItems] at hk ⊢
    have hfirst := hi.takesPiece hP
      (Nat.le_trans (openings_le_append _ _) hk)
    have hothers := ih hitems (Nat.le_trans (openings_le_of_suffix (List.suffix_append _ _)) hk)
    obtain ⟨c, t, ht⟩ := i.exists_text_eq_cons
    rw [ht] at hstart hfirst ⊢
    rw [List.append_assoc]
    exact .more (hstart c rfl) hfirst hothers

/-! ### Arguments -/

theorem Content.Fits.exists_text_eq_cons {v : Content} (h : v.Fits) :
    ∃ c s, v.text = c :: s ∧ isBlank c = false := by
  cases v with
  | quoted quote body =>
    obtain ⟨hquote, -⟩ := h
    exact ⟨quote, _, rfl, (isBarrier_quote hquote).not_blank⟩
  | unquoted body =>
    obtain ⟨hne, hstart, -, -⟩ := h
    obtain ⟨i, body, rfl⟩ := List.exists_cons_of_ne_nil hne
    obtain ⟨c, t, ht⟩ := i.exists_text_eq_cons
    have htext : textOfItems (i :: body) = c :: (t ++ textOfItems body) := by
      rw [textOfItems, ht, List.cons_append]
    exact ⟨c, _, htext, (hstart c (by rw [htext]; rfl)).1⟩

/-- A value is taken in front of blanks and what ends an argument. -/
theorem Content.Fits.takesValue (hframed : IsFramed P) (hP : TakesInner P k) {v : Content}
    (h : v.Fits) (hk : openings v.text ≤ k) (key : Option String) {blanks : List Char}
    (hblanks : AreBlanks blanks) {c : Char} (hc : c = ',' ∨ c = ')') :
    ∃ mid, TakesValue P key (v.text ++ (blanks ++ c :: rest)) (v.argument key) mid ∧
      skipBlanks mid = c :: rest := by
  have hstart := h.exists_text_eq_cons
  cases v with
  | quoted quote body =>
    obtain ⟨hquote, hbody⟩ := h
    have hinfix : textOfItems body <:+: quote :: (textOfItems body ++ [quote]) :=
      ⟨[quote], [quote], rfl⟩
    have hbody' : FitsItems (.quote quote) (quote :: (blanks ++ c :: rest)) body :=
      hbody.alike (.inl rfl)
    have hends : TakesPieces P (.quote quote) (quote :: (blanks ++ c :: rest)) [] _ :=
      .done (by simp [Stop.endsAt])
    have hpieces := hbody'.takesPieces hP (Nat.le_trans (openings_mono hinfix) hk) hends
    have hvalue : TakesValue P key _ _ _ := .quoted hquote hpieces
    rw [taken_append, List.append_nil] at hvalue
    refine ⟨blanks ++ c :: rest, ?_, skipBlanks_end hc hblanks rest⟩
    simpa [Content.text, Content.argument] using hvalue
  | unquoted body =>
    obtain ⟨hne, hhead, hlast, hbody⟩ := h
    have hdetached : Detached (blanks ++ c :: rest) :=
      detached_append hblanks (detached_of_closes hc rest)
    -- The blanks are read as characters of the argument and trimmed.
    have hpieces := (hbody.alike (.inr ⟨hdetached, Stop.isPlain_argument⟩)).takesPieces hP hk
      (takesPieces_blanks hblanks hc rest)
    have hcanonical : ∀ p ∈ piecesOfItems body, CanonicalPiece p := fun p hp =>
      hpieces.canonical hframed.canonical p (List.mem_append_left _ hp)
    have htrim := hbody.trimLast_segments hlast hcanonical
    have hsegments : trimLast (ofPieces (piecesOfItems body ++ blanks.map .char)) =
        ofPieces (piecesOfItems body) := by
      rw [trimLast_ofPieces_append_blanks hcanonical hblanks, htrim]
    have hsource : trimEnd (taken (textOfItems body ++ (blanks ++ c :: rest)) (c :: rest)) =
        textOfItems body := by
      rw [← List.append_assoc, taken_append, trimEnd_append_blanks hblanks,
        hbody.trimEnd_text Stop.isPlain_argument hlast]
    have hquote : ∀ q, (textOfItems body ++ (blanks ++ c :: rest)).head? = some q →
        ¬(q = '"' ∨ q = '\'') := by
      obtain ⟨x, t, htext, -⟩ := hstart
      rw [Content.text] at htext
      rw [htext] at hhead ⊢
      exact fun q hq => (hhead q hq).2
    have hvalue := takesValue_of_pieces key hquote hpieces
      (by rw [hsegments]; exact ofPieces_ne_nil hne)
    rw [hsegments, hsource] at hvalue
    exact ⟨c :: rest, hvalue, skipBlanks_closes hc rest⟩
/-- A text that begins with no keyword has none. -/
theorem keyword_eq_of_not {t : List Char} (h : ¬BeginsWithKeyword t) : keyword t = (none, t) := by
  unfold keyword
  split
  · next name after hkey =>
    obtain ⟨w, gap, heq, hne, hword, hgap, hsingle, -⟩ := keyword?_eq_some_iff_append.mp hkey
    exact absurd ⟨w, gap, after, heq, ⟨hne, hword⟩, hgap, hsingle⟩ h
  · rfl

/-- Of an argument that fits the keyword is read that is written, and the value is left. -/
theorem WrittenArgument.Fits.keyword_eq {a : WrittenArgument} (h : a.Fits) {c : Char}
    (hc : c = ',' ∨ c = ')') (rest : List Char) :
    ∃ mid, keyword (skipBlanks (a.text ++ c :: rest)) =
        (a.key.map (fun k => String.ofList k.name), mid) ∧
      skipBlanks mid = a.content.text ++ (a.after ++ c :: rest) := by
  obtain ⟨key, before, content, after⟩ := a
  obtain ⟨hbefore, hcontent, hafter, hkey⟩ := h
  obtain ⟨x, t, htext, hx⟩ := hcontent.exists_text_eq_cons
  have hends : Ends isBlank (content.text ++ (after ++ c :: rest)) := by
    rw [htext]
    exact ends_cons.mpr hx
  have hskip := skipBlanks_append_of_ends hbefore hends
  cases key with
  | none =>
    refine ⟨content.text ++ (after ++ c :: rest), ?_, skipBlanks_of_ends hends⟩
    have heq : WrittenArgument.text ⟨none, before, content, after⟩ ++ c :: rest =
        before ++ (content.text ++ (after ++ c :: rest)) := by
      simp [WrittenArgument.text]
    -- Neither what ends the argument nor the blanks in front of it make a keyword of a word.
    rw [heq, hskip, ← List.append_assoc, keyword_append_cons (isBarrier_of_closes hc),
      keyword_append_blanks hafter, keyword_eq_of_not hkey]
    rfl
  | some k =>
    obtain ⟨hk, hsingle⟩ := hkey
    refine ⟨before ++ (content.text ++ (after ++ c :: rest)), ?_, hskip⟩
    have heq : WrittenArgument.text ⟨some k, before, content, after⟩ ++ c :: rest =
        k.before ++ (k.name ++ (k.gap ++ '=' :: (before ++
          (content.text ++ (after ++ c :: rest))))) := by
      simp [WrittenArgument.text, Keyword.text]
    have hname : Ends isBlank (k.name ++ (k.gap ++ '=' :: (before ++
        (content.text ++ (after ++ c :: rest))))) := by
      obtain ⟨y, name, hname⟩ := List.exists_cons_of_ne_nil hk.name.ne_nil
      rw [hname]
      exact ends_cons.mpr (isBlank_eq_false_of_isWord
        (hk.name.isWord y (hname ▸ List.mem_cons_self)))
    -- Behind the sign stands a blank or the value, whatever follows the argument.
    have hsingle' : (before ++ (content.text ++ (after ++ c :: rest))).head? ≠ some '=' := by
      rw [htext] at hsingle ⊢
      cases before <;> exact hsingle
    have hkeyword := keyword?_eq_some_iff_append.mpr
      ⟨k.name, k.gap, rfl, hk.name.ne_nil, hk.name.isWord, hk.gap, hsingle', rfl⟩
    rw [heq, skipBlanks_append_of_ends hk.before hname, keyword, hkeyword]
    rfl

theorem WrittenArgument.Fits.takesArgument (hframed : IsFramed P) (hP : TakesInner P k)
    {a : WrittenArgument} (h : a.Fits) (hk : openings a.text ≤ k) {c : Char}
    (hc : c = ',' ∨ c = ')') (rest : List Char) :
    ∃ mid, TakesArgument P (a.text ++ c :: rest) a.value mid ∧ skipBlanks mid = c :: rest := by
  obtain ⟨mid, hkey, hskip⟩ := h.keyword_eq hc rest
  obtain ⟨key, before, content, after⟩ := a
  obtain ⟨-, hcontent, hafter, -⟩ := h
  have hinfix : content.text <:+: WrittenArgument.text ⟨key, before, content, after⟩ :=
    ⟨key.elim [] Keyword.text ++ before, after, by simp [WrittenArgument.text]⟩
  obtain ⟨last, hvalue, hlast⟩ := hcontent.takesValue hframed hP
    (Nat.le_trans (openings_mono hinfix) hk) (key.map fun k => String.ofList k.name)
    hafter hc
  refine ⟨last, ?_, hlast⟩
  rw [TakesArgument, hkey, hskip]
  exact hvalue

theorem FitsMore.takesMore (hframed : IsFramed P) (hP : TakesInner P k)
    {more : List WrittenArgument} (hmore : FitsMore more) {a : WrittenArgument} (h : a.Fits)
    (hk : openings (a.text ++ textOfMore more) ≤ k) (rest : List Char) :
    TakesMore P (a.text ++ (textOfMore more ++ rest)) (a.value :: valuesOfMore more) rest := by
  induction more generalizing a with
  | nil =>
    have hk' := Nat.le_trans (openings_le_append _ _) hk
    obtain ⟨mid, hfirst, hclosed⟩ := h.takesArgument hframed hP hk' (.inr rfl) rest
    exact .last hfirst hclosed
  | cons b more ih =>
    obtain ⟨hb, hmore⟩ := hmore
    have hk' := Nat.le_trans (openings_le_append _ _) hk
    have hsuffix : b.text ++ textOfMore more <:+ a.text ++ textOfMore (b :: more) :=
      ⟨a.text ++ [','], by simp [textOfMore]⟩
    obtain ⟨mid, hfirst, hcomma⟩ := h.takesArgument hframed hP hk' (.inl rfl)
      (b.text ++ (textOfMore more ++ rest))
    have hothers := ih hmore hb (Nat.le_trans (openings_le_of_suffix hsuffix) hk)
    have hall : TakesMore P _ (a.value :: b.value :: valuesOfMore more) rest :=
      .more hfirst hcomma hothers
    simpa [textOfMore, valuesOfMore] using hall

theorem Arguments.Fits.takesArguments (hframed : IsFramed P) (hP : TakesInner P k)
    {args : Arguments} (h : args.Fits) (hk : openings args.text ≤ k) (rest : List Char) :
    TakesArguments P (args.text ++ rest) args.values rest := by
  cases args with
  | none blanks =>
    refine .none ?_
    rw [Arguments.text, List.append_assoc]
    exact skipBlanks_append_of_ends h (ends_cons.mpr (by decide))
  | some first more =>
    obtain ⟨hfirst, hmore⟩ := h
    rw [Arguments.text, List.append_assoc]
    exact (hmore.takesMore hframed hP hfirst hk rest).arguments

end Completeness

/-- Room for the openings in a placeholder and one more is enough. The induction is on the room. -/
theorem takesInner_takesPlaceholder (room : ℕ) : TakesInner (TakesPlaceholder room) room := by
  induction room with
  | zero => exact fun _ _ hk => absurd hk (Nat.not_lt_zero _)
  | succ room ih =>
    intro inner h hk rest
    have hbrace : isBlank '\x7d' = false := by decide
    cases inner with
    | var before name after =>
      obtain ⟨hbefore, hname, hafter⟩ := h
      obtain ⟨mid, hword, hclosed⟩ := exists_word_skipBlanks rest hbefore hname.isWord hafter
        (by decide : isWord '\x7d' = false) hbrace
      have hvar : TakesName (TakesPlaceholder room) _ _ _ :=
        .var hword hname.ne_nil (by rw [hclosed]; simp)
      refine ⟨_, by simpa [Inner.text, Inner.segment] using hvar, ?_⟩
      rw [hclosed, skipBlanks_of_ends (ends_cons.mpr hbrace)]
    | call before name gap arguments after =>
      obtain ⟨hbefore, hname, hgap, harguments, hafter⟩ := h
      have hinfix : arguments.text <:+: Inner.text (.call before name gap arguments after) :=
        ⟨before ++ (name ++ (gap ++ ['('])), after ++ ['\x7d'], by simp [Inner.text]⟩
      have hall := harguments.takesArguments (isFramed_takesPlaceholder room) ih
        (Nat.le_trans (openings_mono hinfix) (Nat.le_of_lt_succ hk))
        (after ++ '\x7d' :: rest)
      obtain ⟨mid, hword, hopened⟩ := exists_word_skipBlanks
        (arguments.text ++ (after ++ '\x7d' :: rest)) hbefore hname.isWord hgap
        (by decide : isWord '(' = false) (by decide)
      have hcall := TakesName.call hword hname.ne_nil hopened hall
      exact ⟨_, by simpa [Inner.text, Inner.segment] using hcall,
        skipBlanks_append_of_ends hafter (ends_cons.mpr hbrace)⟩

/-! ## What is read is derived -/

/-- What a rule takes for a placeholder is the text of one that fits. -/
def DerivesInner (P : Rule Segment) : Prop :=
  ∀ s segment rest, P s segment rest →
    ∃ inner : Inner, s = inner.text ++ rest ∧ inner.segment = segment ∧ inner.Fits

section Soundness

variable {P : Rule Segment} {stop : Stop} {s rest : List Char}

theorem TakesPiece.derived (hP : DerivesInner P) {p : Piece} (h : TakesPiece P stop s p rest) :
    ∃ i : Item, s = i.text ++ rest ∧ i.piece = p ∧ i.Fits stop rest := by
  cases h with
  | @escaped x _ escapes => exact ⟨.escaped x, rfl, rfl, escapes⟩
  | backslash plain => exact ⟨.char '\\', rfl, rfl, fun _ => plain, fun h => absurd h (by decide)⟩
  | dollars => exact ⟨.dollars, rfl, rfl, trivial⟩
  | braces inner =>
    obtain ⟨braced, rfl, rfl, hbraced⟩ := hP _ _ _ inner
    exact ⟨.braces braced, rfl, rfl, hbraced⟩
  | @name _ name _ word_eq ne_nil =>
    obtain ⟨rfl, hword, hends⟩ := word_eq_iff.mp word_eq
    exact ⟨.name name, rfl, rfl, ⟨ne_nil, hword⟩, hends⟩
  | dollar lone => exact ⟨.char '$', rfl, rfl, fun h => absurd h (by decide), fun _ => lone⟩
  | @char c _ ne_backslash ne_dollar =>
    exact ⟨.char c, rfl, rfl, fun h => absurd h ne_backslash, fun h => absurd h ne_dollar⟩

theorem TakesPieces.derived (hP : DerivesInner P) {ps : List Piece}
    (h : TakesPieces P stop s ps rest) :
    ∃ items, s = textOfItems items ++ rest ∧ piecesOfItems items = ps ∧
      FitsItems stop rest items := by
  induction h with
  | done => exact ⟨[], rfl, rfl, trivial⟩
  | more goes_on first _ ih =>
    obtain ⟨items, rfl, rfl, hitems⟩ := ih
    obtain ⟨i, heq, rfl, hi⟩ := first.derived hP
    refine ⟨i :: items, by rw [heq, textOfItems, List.append_assoc], rfl, fun x hx => ?_, hi,
      hitems⟩
    obtain ⟨t, ht⟩ := List.head?_eq_some_iff.mp hx
    rw [ht, List.cons_append] at heq
    rwa [← (List.cons.inj heq).1]

/-! ### Arguments -/

/-- The blanks that items end with are items of their own. -/
theorem exists_eq_append_blanks (items : List Item) :
    ∃ body blanks, items = body ++ blanks.map .char ∧ AreBlanks blanks ∧
      ∀ c, body.getLast? = some (.char c) → isBlank c = false := by
  induction items using List.reverseRecOn with
  | nil => exact ⟨[], [], rfl, List.forall_mem_nil _, by simp⟩
  | append_singleton items i ih =>
    by_cases hi : ∃ c, i = .char c ∧ isBlank c = true
    · obtain ⟨c, rfl, hc⟩ := hi
      obtain ⟨body, blanks, rfl, hblanks, hlast⟩ := ih
      refine ⟨body, blanks ++ [c], by simp, fun x hx => ?_, hlast⟩
      rcases List.mem_append.mp hx with hx | hx
      · exact hblanks x hx
      · rwa [List.mem_singleton.mp hx]
    · refine ⟨items ++ [i], [], by simp, List.forall_mem_nil _, fun c hc => ?_⟩
      rw [List.getLast?_concat] at hc
      simpa using fun hblank => hi ⟨c, Option.some.inj hc, hblank⟩

theorem TakesValue.derived (hframed : IsFramed P) (hP : DerivesInner P) {key : Option String}
    {a : Argument} {mid : List Char} {c : Char} (h : TakesValue P key s a mid)
    (hs : Ends isBlank s) (hmid : skipBlanks mid = c :: rest) :
    ∃ v : Content, ∃ blanks, s = v.text ++ (blanks ++ c :: rest) ∧ v.argument key = a ∧ v.Fits ∧
      AreBlanks blanks := by
  cases h with
  | @quoted q t _ ps quote body =>
    obtain ⟨blanks, heq, hblanks⟩ := exists_eq_skipBlanks_append mid
    rw [hmid] at heq
    obtain ⟨items, rfl, rfl, hitems⟩ := body.derived hP
    rw [taken_append]
    exact ⟨.quoted q items, blanks, by simp [Content.text, heq], rfl,
      ⟨quote, hitems.alike (.inl rfl)⟩, hblanks⟩
  | @unquoted x t _ ps no_quote body ne_nil =>
    obtain rfl := body.rest_of_skipBlanks hmid
    have hcanonical := body.canonical hframed.canonical
    obtain ⟨items, heq, rfl, hitems⟩ := body.derived hP
    -- The blanks that were read as characters stand behind the value in the tree.
    obtain ⟨items, blanks, rfl, hblanks, hlast⟩ := exists_eq_append_blanks items
    have hempty : Detached ([] : List Char) := by simp [Detached]
    have hfits : FitsItems .argument [] items :=
      (fitsItems_append.mp hitems).1.alike (.inr ⟨hempty, Stop.isPlain_argument⟩)
    rw [piecesOfItems_append, piecesOfItems_chars] at hcanonical ne_nil ⊢
    have hcanonical' : ∀ p ∈ piecesOfItems items, CanonicalPiece p := fun p hp =>
      hcanonical p (List.mem_append_left _ hp)
    rw [trimLast_ofPieces_append_blanks hcanonical' hblanks,
      hfits.trimLast_segments hlast hcanonical'] at ne_nil ⊢
    rw [textOfItems_append, textOfItems_chars] at heq
    have hne : items ≠ [] := by
      rintro rfl
      exact ne_nil rfl
    refine ⟨.unquoted items, blanks, by rw [heq, Content.text, List.append_assoc], ?_,
      ⟨hne, fun y hy => ?_, hlast, hfits⟩, hblanks⟩
    · rw [heq, taken_append, trimEnd_append_blanks hblanks,
        hfits.trimEnd_text Stop.isPlain_argument hlast]
      rfl
    · obtain ⟨u, hu⟩ := List.head?_eq_some_iff.mp hy
      rw [hu] at heq
      obtain rfl : x = y := (List.cons.inj heq).1
      exact ⟨hs x rfl, no_quote⟩

theorem TakesArgument.derived (hframed : IsFramed P) (hP : DerivesInner P) {a : Argument}
    {mid : List Char} {c : Char} (h : TakesArgument P s a mid)
    (hmid : skipBlanks mid = c :: rest) (hc : c = ',' ∨ c = ')') :
    ∃ w : WrittenArgument, s = w.text ++ c :: rest ∧ w.value = a ∧ w.Fits := by
  obtain ⟨before, hs, hbefore⟩ := exists_eq_skipBlanks_append s
  obtain ⟨v, after, heq, rfl, hv, hafter⟩ :=
    TakesValue.derived hframed hP h (ends_skipBlanks _) hmid
  obtain ⟨x, t, htext, hx⟩ := hv.exists_text_eq_cons
  have hequals : (after ++ c :: rest).head? ≠ some '=' := by
    intro hhead
    cases after with
    | nil =>
      obtain rfl : c = '=' := Option.some.inj hhead
      exact (isBarrier_of_closes hc).not_equals rfl
    | cons y after =>
      obtain rfl : y = '=' := Option.some.inj hhead
      exact absurd (hafter '=' List.mem_cons_self) (by decide)
  -- The tree has a keyword exactly if the parser sees one.
  unfold keyword at heq
  cases hkey : keyword? (skipBlanks s) with
  | none =>
    rw [hkey] at heq
    simp only [skipBlanks_of_ends (ends_skipBlanks s)] at heq
    refine ⟨⟨none, before, v, after⟩, ?_, by rw [keyword, hkey]; rfl, hbefore, hv, hafter, ?_⟩
    · rw [heq] at hs
      rw [hs]
      simp [WrittenArgument.text]
    · -- A keyword of the value would be one of the text that it is in front of.
      rintro ⟨w, gap, more, hvalue, hw, hgap, hsingle⟩
      have hsome := keyword?_eq_some_iff_append.mpr
        ⟨w, gap, hvalue, hw.ne_nil, hw.isWord, hgap, hsingle, rfl⟩
      have hall := keyword?_append hsome hequals
      rw [← heq, hkey] at hall
      cases hall
  | some k =>
    obtain ⟨name, more⟩ := k
    rw [hkey] at heq
    obtain ⟨w, gap, hskip, hne, hword, hgap, hsingle, rfl⟩ :=
      keyword?_eq_some_iff_append.mp hkey
    obtain ⟨before', hmore, hbefore'⟩ := exists_eq_skipBlanks_append more
    rw [heq] at hmore
    refine ⟨⟨some ⟨before, w, gap⟩, before', v, after⟩, ?_, by rw [keyword, hkey]; rfl, hbefore',
      hv, hafter, ⟨hbefore, ⟨hne, hword⟩, hgap⟩, ?_⟩
    · rw [hskip, hmore] at hs
      rw [hs]
      simp [WrittenArgument.text, Keyword.text]
    · rw [hmore, htext] at hsingle
      rw [htext]
      cases before' <;> exact hsingle

theorem TakesMore.derived (hframed : IsFramed P) (hP : DerivesInner P) {args : List Argument}
    (h : TakesMore P s args rest) :
    ∃ (first : WrittenArgument) (more : List WrittenArgument),
      s = first.text ++ (textOfMore more ++ rest) ∧ first.value :: valuesOfMore more = args ∧
        first.Fits ∧ FitsMore more := by
  induction h with
  | last first closed =>
    obtain ⟨w, rfl, rfl, hw⟩ := first.derived hframed hP closed (.inr rfl)
    exact ⟨w, [], rfl, rfl, hw, trivial⟩
  | more first comma _ ih =>
    obtain ⟨w, rfl, rfl, hw⟩ := first.derived hframed hP comma (.inl rfl)
    obtain ⟨w', more, rfl, rfl, hw', hmore⟩ := ih
    exact ⟨w, w' :: more, by simp [textOfMore], rfl, hw, hw', hmore⟩

theorem TakesArguments.derived (hframed : IsFramed P) (hP : DerivesInner P) {args : List Argument}
    (h : TakesArguments P s args rest) :
    ∃ w : Arguments, s = w.text ++ rest ∧ w.values = args ∧ w.Fits := by
  cases h with
  | none closed =>
    obtain ⟨blanks, hs, hblanks⟩ := exists_eq_skipBlanks_append s
    rw [closed] at hs
    exact ⟨.none blanks, by rw [hs, Arguments.text, List.append_assoc]; rfl, rfl, hblanks⟩
  | some _ all =>
    obtain ⟨first, more, hs, hvalues, hfirst, hmore⟩ :=
      (takesMore_skipBlanks.mp all).derived hframed hP
    exact ⟨.some first more, by rw [hs, Arguments.text, List.append_assoc], hvalues, hfirst, hmore⟩

end Soundness

/-- Whatever is taken for a placeholder is one that fits. The induction is on the room. -/
theorem derivesInner_takesPlaceholder (room : ℕ) : DerivesInner (TakesPlaceholder room) := by
  induction room with
  | zero => exact fun _ _ _ h => h.elim
  | succ room ih =>
    intro s segment rest h
    obtain ⟨mid, hname, hclosed⟩ := h
    obtain ⟨after, hmid, hafter⟩ := exists_eq_skipBlanks_append mid
    obtain ⟨before, gap, hs, hbefore, hisWord, hgap⟩ := exists_eq_append_word s
    rw [hclosed] at hmid
    cases hname with
    | @var _ name next word_eq ne_nil =>
      rw [word_eq] at hs hisWord
      rw [skipBlanks_of_ends (ends_skipBlanks next)] at hclosed
      exact ⟨.var before name gap, by rw [hs, hclosed]; simp [Inner.text], rfl, hbefore,
        ⟨ne_nil, hisWord⟩, hgap⟩
    | @call _ name next inner _ args word_eq ne_nil opened all =>
      rw [word_eq, opened] at hs
      rw [word_eq] at hisWord
      obtain ⟨w, rfl, rfl, hw⟩ := all.derived (isFramed_takesPlaceholder room) ih
      exact ⟨.call before name gap w after, by rw [hs, hmid]; simp [Inner.text], rfl, hbefore,
        ⟨ne_nil, hisWord⟩, hgap, hw, hafter⟩

/-- A text that has no more openings than the limit parses to the segments of its derivation. -/
theorem parse_eq_ok_iff_derives {limit : ℕ} {text : String}
    (hlimit : openings text.toList ≤ limit) {t : Template} :
    parse limit text = .ok t ↔ ∃ items, Derives text items ∧ t = ⟨segmentsOfItems items⟩ := by
  rw [parse_eq_ok]
  constructor
  · rintro ⟨ps, hps, rfl⟩
    obtain ⟨items, htext, rfl, hitems⟩ := hps.derived (derivesInner_takesPlaceholder limit)
    rw [List.append_nil] at htext
    exact ⟨items, ⟨htext.symm, hitems⟩, rfl⟩
  · rintro ⟨items, ⟨htext, hitems⟩, rfl⟩
    rw [← htext] at hlimit ⊢
    have hdone : TakesPieces (TakesPlaceholder limit) .never [] [] [] := .done (by simp)
    have hps := hitems.takesPieces (takesInner_takesPlaceholder limit) hlimit hdone
    rw [List.append_nil, List.append_nil] at hps
    exact ⟨_, hps, rfl⟩

end Casebook.Template
