import Casebook.Proofs.Template.Calls
import Casebook.Proofs.Template.Nested
import Casebook.Proofs.Template.Wording
import Mathlib

/-!
# Reading words for parameters

A template is read again once its parameters have become words, with the same room, and refers to
what is left. There are two ways in which it may come to another end. A word may be put right behind
a reference without braces and be read with its name. And a word in front of an equals sign is a
keyword, behind which nothing may be left of the argument that the parameter began; `KeepsValue`
says of an argument that something is left of it.
-/

namespace Casebook.Template

open Text Segment Substitution

/-- The names that have no word. -/
def withoutWords (words : Dict String) (names : List String) : List String :=
  names.filter fun n => words.get? n = none

/-- Something is left of an argument without keyword behind a keyword that its words may make. -/
def KeepsValue (words : Dict String) (a : Argument) : Prop :=
  a.key = none →
    skipBlanks (keyword (apply (words.mapValues plain) a.source).toList).2 ≠ []

/-- A rule for placeholders takes calls again once parameters have become words. -/
structure Fills (words : Dict String) (P : Rule Segment) : Prop extends IsFramed P where
  braced_of_var {s rest : List Char} {n : String} (h : P s (.var n) rest) :
    ∃ name, braced s = .name name rest ∧ name ≠ [] ∧ String.ofList name = n
  braced_ne_name {s rest : List Char} {c : Call} (h : P s (.call c) rest) (name rest' : List Char) :
    braced s ≠ .name name rest'
  not_text {s rest : List Char} {t : String} : ¬P s (.text t) rest
  call {s s' rest : List Char} {c : Call} (h : P s (.call c) rest) (hs : Worded words s s')
    (hkept : ∀ a ∈ (Segment.call c).nestedArguments, KeepsValue words a) :
    ∃ c' rest', P s' (.call c') rest' ∧ Worded words rest rest' ∧
      (Segment.call c').references = withoutWords words (Segment.call c).references

section Rules

variable {words : Dict String} {P : Rule Segment} {stop : Stop} {s s' rest : List Char}

/-! ## Pieces -/

/-- The pieces that one piece becomes, in front of any others. -/
def BecomesPieces (words : Dict String) (P : Rule Segment) (stop : Stop) (p : Piece)
    (rest s' : List Char) : Prop :=
  ∃ rest' qs, Worded words rest rest' ∧
    qs.flatMap Piece.references = withoutWords words p.references ∧
    ∀ ps last, TakesPieces P stop rest' ps last → TakesPieces P stop s' (qs ++ ps) last

/-- A piece that stays a single one. -/
theorem becomes_of_takesPiece {p q : Piece} {c : Char} {rest' : List Char}
    (hgoes : stop.endsAt c = false) (h : TakesPiece P stop (c :: s') q rest')
    (hrest : Worded words rest rest') (hrefs : q.references = withoutWords words p.references) :
    BecomesPieces words P stop p rest (c :: s') := by
  refine ⟨rest', [q], hrest, ?_, fun ps last hps => .more hgoes h hps⟩
  rw [List.flatMap_cons, List.flatMap_nil, List.append_nil, hrefs]

/-- A reference becomes a word or is read as the same variable. -/
theorem becomes_of_refers (hwords : AllNames words)
    (hstop : stop.IsUsual) {name written : List Char} (hrefers : Refers name written rest)
    (hs : Worded words (written ++ rest) s')
    (hagain : ∀ rest', Refers name written rest' →
      TakesPiece P stop (written ++ rest') (.placeholder (.var (String.ofList name))) rest') :
    BecomesPieces words P stop (.placeholder (.var (String.ofList name))) rest s' := by
  rcases hs.refers_inv hrefers with
    ⟨hget, rest', rfl, hrefers', hrest⟩ | ⟨w, rest', hget, rfl, hrest⟩
  · have hpiece := hagain rest' hrefers'
    obtain ⟨text, rfl, -⟩ := hrefers'.exists_inert
    refine becomes_of_takesPiece hstop.goes_on hpiece hrest ?_
    simp [Piece.references, Segment.references, withoutWords, hget]
  · have hinert : ∀ c ∈ w.toList, Inert c := fun c hc =>
      inert_of_isWord ((hwords _ _ hget).2 c hc)
    refine ⟨rest', w.toList.map .char, hrest, ?_, fun ps last hps => hps.append_inert hstop hinert⟩
    have hchars := flatMap_references_chars w.toList []
    rw [List.append_nil] at hchars
    simp [hchars, Piece.references, Segment.references, withoutWords, hget]

theorem TakesPiece.becomes (hP : Fills words P) (hwords : AllNames words) (hstop : stop.IsUsual)
    {p : Piece} {c : Char} (hgoes : stop.endsAt c = false) (h : TakesPiece P stop (c :: s) p rest)
    (hs : Worded words (c :: s) s') (hkept : ∀ a ∈ p.nestedArguments, KeepsValue words a) :
    BecomesPieces words P stop p rest s' := by
  cases h with
  | escaped => exact absurd (by decide) (hs.cons_inv (by decide)).1
  | backslash => exact absurd (by decide) (hs.cons_inv (by decide)).1
  | dollars =>
    obtain ⟨rest', rfl, hrest⟩ := hs.dollars_inv
    exact becomes_of_takesPiece hgoes .dollars hrest rfl
  | @braces t segment _ inner =>
    cases segment with
    | text => exact absurd inner hP.not_text
    | var n =>
      obtain ⟨name, hbraced, hname, rfl⟩ := hP.braced_of_var inner
      obtain ⟨written, hrefers, heq⟩ := exists_refers_of_braced hbraced
      rw [← heq] at hs
      refine becomes_of_refers hwords hstop hrefers hs fun rest' _ => ?_
      obtain ⟨u, rfl, hu⟩ := hP.frame inner
      have hwritten : written = '$' :: '\x7b' :: (u ++ ['\x7d']) := by
        refine List.append_cancel_right (heq.trans ?_)
        simp
      have hpiece : TakesPiece P stop _ _ rest' := .braces (hu rest')
      rw [hwritten]
      simpa using hpiece
    | call c =>
      obtain ⟨t', rfl, ht⟩ := hs.lone_inv (by simp) (not_refers_of_braced (hP.braced_ne_name inner))
      obtain ⟨-, u', rfl, hu⟩ := ht.cons_inv (by decide)
      obtain ⟨c', rest', hinner', hrest, hrefs⟩ := hP.call inner hu hkept
      exact becomes_of_takesPiece hgoes (.braces hinner') hrest hrefs
  | @name _ name _ word_eq ne_nil =>
    have hrefers := refers_of_word word_eq ne_nil
    obtain ⟨rfl, hisWord, -⟩ := word_eq_iff.mp word_eq
    refine becomes_of_refers hwords hstop hrefers hs fun rest' hrefers' => ?_
    rcases hrefers'.word_or_braced rfl with ⟨hword, hname⟩ | ⟨t, ht, -⟩
    · exact .name hword hname
    · obtain ⟨x, more, rfl⟩ := List.exists_cons_of_ne_nil ne_nil
      obtain rfl : x = '\x7b' := (List.cons.inj ht).1
      exact absurd (hisWord _ List.mem_cons_self) (by decide)
  | dollar lone =>
    obtain ⟨rest', rfl, hrest⟩ := hs.lone_inv (fun h => (lone _ h).1 rfl) (not_refers_of_lone lone)
    refine becomes_of_takesPiece hgoes (.dollar fun x hx => ?_) hrest rfl
    rcases hrest.head?_or hwords with hhead | ⟨hdollar, -⟩
    · exact lone x (hhead ▸ hx)
    · exact absurd rfl (lone '$' hdollar).1
  | char ne_backslash ne_dollar =>
    obtain ⟨-, rest', rfl, hrest⟩ := hs.cons_inv ne_dollar
    exact becomes_of_takesPiece hgoes (.char ne_backslash ne_dollar) hrest rfl

/-- The induction is on the pieces of the text. -/
theorem TakesPieces.worded (hP : Fills words P) (hwords : AllNames words)
    (hstop : stop.IsUsual) {ps : List Piece} (h : TakesPieces P stop s ps rest)
    (hs : Worded words s s')
    (hkept : ∀ a ∈ ps.flatMap Piece.nestedArguments, KeepsValue words a) :
    ∃ ps' rest', TakesPieces P stop s' ps' rest' ∧ Worded words rest rest' ∧
      ps'.flatMap Piece.references = withoutWords words (ps.flatMap Piece.references) := by
  induction h generalizing s' with
  | @done s ends =>
    refine ⟨[], s', .done fun x hx => ?_, hs, rfl⟩
    rcases hs.head?_or hwords with hhead | ⟨hdollar, -⟩
    · exact ends x (hhead ▸ hx)
    · have hends := ends '$' hdollar
      rw [hstop.goes_on] at hends
      cases hends
  | @more c s mid rest p ps goes_on first others ih =>
    rw [List.flatMap_cons] at hkept
    obtain ⟨mid', qs, hmid, hqs, hmore⟩ := first.becomes hP hwords hstop goes_on hs fun a ha =>
      hkept a (List.mem_append_left _ ha)
    obtain ⟨ps', rest', hps', hrest, hrefs⟩ := ih hmid fun a ha =>
      hkept a (List.mem_append_right _ ha)
    refine ⟨qs ++ ps', rest', hmore ps' rest' hps', hrest, ?_⟩
    rw [List.flatMap_append, List.flatMap_cons, hqs, hrefs, withoutWords, withoutWords,
      withoutWords, List.filter_append]

/-! ## Arguments -/

/-- The value of an argument is read again, under its keyword or another. -/
theorem TakesValue.worded (hP : Fills words P) (hwords : AllNames words)
    {key : Option String} {a : Argument}
    (h : TakesValue P key s a rest) (hblank : Ends isBlank s) (hs : Worded words s s')
    (hkept : ∀ a' ∈ nestedInArg a, KeepsValue words a') :
    ∃ a' rest', TakesValue P key s' a' rest' ∧ Worded words rest rest' ∧
      referencesOfArg a' = withoutWords words (referencesOfArg a) := by
  cases h with
  | @quoted q s _ ps quote body =>
    have hq : q ∈ markers := by rcases quote with rfl | rfl <;> decide
    have hdollar : q ≠ '$' := by rcases quote with rfl | rfl <;> decide
    exact absurd hq (hs.cons_inv hdollar).1
  | @unquoted c s _ ps no_quote body ne_nil =>
    rw [nestedInArg_unquoted, nestedInSegments_trimLast, nestedInSegments_ofPieces] at hkept
    obtain ⟨ps', rest', hps', hrest, hrefs⟩ := body.worded hP hwords isUsual_argument hs
      fun a ha => hkept a (List.mem_cons_of_mem _ ha)
    have hgoes : Stop.argument.endsAt c = false := by
      cases body with
      | done => exact absurd rfl ne_nil
      | more goes_on => exact goes_on
    -- The argument begins with the same character, or with a word.
    obtain ⟨x, t', rfl, hx, hgoes', hquote⟩ : ∃ x t', s' = x :: t' ∧ isBlank x = false ∧
        Stop.argument.endsAt x = false ∧ ¬(x = '"' ∨ x = '\'') := by
      rcases hs.head?_or hwords with hhead | ⟨-, x, hhead, hword⟩
      · obtain ⟨t', rfl⟩ := List.head?_eq_some_iff.mp hhead
        exact ⟨c, t', rfl, ends_cons.mp hblank, hgoes, no_quote⟩
      · obtain ⟨t', rfl⟩ := List.head?_eq_some_iff.mp hhead
        refine ⟨x, t', rfl, isBlank_eq_false_of_isWord hword,
          isUsual_argument.inert (inert_of_isWord hword), ?_⟩
        rintro (rfl | rfl) <;> exact absurd hword (by decide)
    refine ⟨_, rest', .unquoted hquote hps' (hps'.trimLast_ne_nil hP.not_text (fun _ => rfl) hx
      hgoes'), hrest, ?_⟩
    rw [referencesOfArg_value, referencesOfArg_value, hrefs]

theorem source_unquoted (key : Option String) (segments : List Segment) (source : String) :
    (unquoted key segments source).source = source := by
  unfold unquoted
  split <;> rfl

/-- A keyword and the blanks behind it are characters at the front of the pieces they are read as.
-/
theorem TakesPieces.of_keyword (hstop : stop.IsUsual) {name : String} {after : List Char}
    (hkey : keyword? s = some (name, after)) {ps : List Piece} (h : TakesPieces P stop s ps rest) :
    ∃ (text : List Char) (qs : List Piece), ps = text.map .char ++ qs ∧
      TakesPieces P stop (skipBlanks after) qs rest := by
  obtain ⟨w, bs, heq, -, hisWord, hbs, -, -⟩ := keyword?_eq_some_iff_append.mp hkey
  obtain ⟨blanks, hafter, hblanks⟩ := exists_eq_skipBlanks_append after
  have hsplit : s = w ++ (bs ++ ['=']) ++ blanks ++ skipBlanks after := by
    rw [List.append_assoc, ← hafter, heq]
    simp
  have hnone : ∀ c ∈ ([] : List Char), isBlank c = true := by simp
  have hinert : ∀ c ∈ w ++ (bs ++ ['=']) ++ blanks, Inert c := by
    intro c hc
    rcases List.mem_append.mp hc with hc | hc
    · exact inert_of_mem_append hnone hisWord hbs (by decide : Inert '=') c hc
    · exact inert_of_isBlank (hblanks c hc)
  rw [hsplit] at h
  obtain ⟨qs, hps, hqs⟩ := h.of_append_inert hstop hinert
  exact ⟨_, qs, hps, hqs⟩

/-- Behind a keyword that words have made stands what is left of the argument, in front of what ends
it. -/
theorem KeepsValue.exists_left {a : Argument} (hkeeps : KeepsValue words a) (hkey : a.key = none)
    {blanks : List Char} (hblanks : ∀ x ∈ blanks, isBlank x = true) {c : Char}
    (hc : c = ',' ∨ c = ')') (heq : s = a.source.toList ++ (blanks ++ c :: rest))
    (hs : Worded words s s') {name : String} {after : List Char}
    (hkey' : keyword? s' = some (name, after)) :
    ∃ y left rest', skipBlanks after = y :: (left ++ (blanks ++ c :: rest')) ∧
      Worded words rest rest' := by
  have hdollar : c ≠ '$' := by rcases hc with rfl | rfl <;> decide
  rw [heq] at hs
  obtain ⟨u', t', rfl, hu, ht⟩ := hs.append_inv (separate_of_closes hc hblanks rest)
  obtain ⟨v', rfl, hv⟩ := ht.of_append_inert fun x hx => inert_of_isBlank (hblanks x hx)
  obtain ⟨-, rest', rfl, hrest⟩ := hv.cons_inv hdollar
  have hleft := hkeeps hkey
  rw [hu.apply_eq] at hleft
  -- What ends the argument is not in the keyword.
  have hkeyword : keyword (u' ++ (blanks ++ c :: rest')) =
      ((keyword u').1, (keyword u').2 ++ (blanks ++ c :: rest')) := by
    rw [← List.append_assoc, keyword_append_cons (isBarrier_of_closes hc),
      keyword_append_blanks hblanks, List.append_assoc]
  rw [keyword, hkey'] at hkeyword
  have hafter : after = (keyword u').2 ++ (blanks ++ c :: rest') := (Prod.mk.inj hkeyword).2
  obtain ⟨y, left, hcons⟩ := List.exists_cons_of_ne_nil hleft
  refine ⟨y, left, rest', ?_, hrest⟩
  unfold skipBlanks at hcons ⊢
  rw [hafter, List.dropWhile_append, hcons]
  rfl

/-- What stands behind a keyword that words have made is the value of an argument, because something
is left of it. -/
theorem TakesValue.worded_keyword (hP : Fills words P) (hwords : AllNames words) {a : Argument}
    {mid : List Char} {c : Char} (h : TakesValue P none s a mid) (hmid : skipBlanks mid = c :: rest)
    (hc : c = ',' ∨ c = ')') (hs : Worded words s s')
    (hkept : ∀ a' ∈ nestedInArg a, KeepsValue words a') {name : String} {after : List Char}
    (hkey : keyword? s' = some (name, after)) :
    ∃ a' mid', TakesValue P (some name) (skipBlanks after) a' mid' ∧ Worded words mid mid' ∧
      referencesOfArg a' = withoutWords words (referencesOfArg a) := by
  have hdollar : c ≠ '$' := by rcases hc with rfl | rfl <;> decide
  have hkeeps := hkept a (mem_nestedInArg_self a)
  have hnone := h.key_eq
  obtain ⟨blanks, heq, hblanks, -⟩ := h.reread hP.toIsFramed hmid
  cases h with
  | @quoted q _ _ ps quote body =>
    have hq : q ∈ markers := by rcases quote with rfl | rfl <;> decide
    have hdollar : q ≠ '$' := by rcases quote with rfl | rfl <;> decide
    exact absurd hq (hs.cons_inv hdollar).1
  | @unquoted x t _ ps no_quote body ne_nil =>
    rw [nestedInArg_unquoted, nestedInSegments_trimLast, nestedInSegments_ofPieces] at hkept
    obtain ⟨ps', mid', hps', hmid', hrefs⟩ := body.worded hP hwords isUsual_argument hs
      fun a ha => hkept a (List.mem_cons_of_mem _ ha)
    rw [raw_unquoted] at heq
    obtain ⟨y, left, rest', hskip, hrest⟩ := hkeeps.exists_left hnone hblanks hc
      (by rw [source_unquoted]; exact heq) hs hkey
    obtain ⟨text, qs, rfl, hqs⟩ := hps'.of_keyword isUsual_argument hkey
    have hy : isBlank y = false := head?_skipBlanks after y (by rw [hskip]; rfl)
    have hquote : ¬(y = '"' ∨ y = '\'') := by
      have hsuffix : skipBlanks after <:+ s' := by
        have hkeyword := suffix_keyword s'
        rw [keyword, hkey] at hkeyword
        exact (List.dropWhile_suffix isBlank).trans hkeyword
      rw [hskip] at hsuffix
      have hmarkers := hs.not_mem_markers hwords y (hsuffix.subset List.mem_cons_self)
      rintro (rfl | rfl) <;> exact hmarkers (by decide) (by decide)
    rw [hskip] at hqs ⊢
    have hgoes : Stop.argument.endsAt y = false := by
      cases hqs with
      | more goes_on => exact goes_on
      | done =>
        -- The argument would end where it begins, and more than its end would follow it.
        have hend := hmid'.skipBlanks hwords
        rw [hmid, skipBlanks_of_ends (ends_cons.mpr hy)] at hend
        obtain ⟨-, rest'', hrest'', hmore⟩ := hend.cons_inv hdollar
        have hlength := congrArg List.length hrest''
        rw [hmore.unique hrest] at hlength
        simp only [List.length_cons, List.length_append] at hlength
        omega
    have hne := hqs.trimLast_ne_nil hP.not_text (fun _ => rfl) hy hgoes
    refine ⟨_, mid', .unquoted hquote hqs hne, hmid', ?_⟩
    rw [referencesOfArg_value, referencesOfArg_value, ← hrefs, flatMap_references_chars]

/-- An argument is read again up to what ends it. -/
theorem TakesArgument.worded (hP : Fills words P) (hwords : AllNames words)
    {a : Argument} {mid : List Char} {c : Char}
    (h : TakesArgument P s a mid) (hmid : skipBlanks mid = c :: rest) (hc : c = ',' ∨ c = ')')
    (hs : Worded words s s') (hkept : ∀ a' ∈ nestedInArg a, KeepsValue words a') :
    ∃ a' mid', TakesArgument P s' a' mid' ∧ Worded words mid mid' ∧
      referencesOfArg a' = withoutWords words (referencesOfArg a) := by
  have hskip := hs.skipBlanks hwords
  unfold TakesArgument keyword at h ⊢
  cases hkey : keyword? (skipBlanks s) with
  | some k =>
    obtain ⟨name, after⟩ := k
    rw [hkey] at h
    obtain ⟨w, blanks, heq, hw, hisWord, hblanks, hsingle, hname⟩ :=
      keyword?_eq_some_iff_append.mp hkey
    have hnone : ∀ c ∈ ([] : List Char), isBlank c = true := by simp
    have hinert := inert_of_mem_append hnone hisWord hblanks (by decide : Inert '=')
    have hsplit (t : List Char) : w ++ (blanks ++ '=' :: t) =
        [] ++ (w ++ (blanks ++ ['='])) ++ t := by simp
    rw [heq, hsplit] at hskip
    obtain ⟨after', heq', hafter⟩ := hskip.of_append_inert hinert
    have hsingle' : after'.head? ≠ some '=' := by
      rcases hafter.head?_or hwords with hhead | ⟨-, x, hx, hword⟩
      · rwa [hhead]
      · rw [hx]
        rintro heq
        rw [Option.some.inj heq] at hword
        exact absurd hword (by decide)
    rw [← hsplit] at heq'
    have hkey' : keyword? (skipBlanks s') = some (name, after') :=
      keyword?_eq_some_iff_append.mpr ⟨w, blanks, heq', hw, hisWord, hblanks, hsingle', hname⟩
    rw [hkey']
    exact h.worded hP hwords (ends_skipBlanks after) (hafter.skipBlanks hwords) hkept
  | none =>
    have hsame (u : List Char) : skipBlanks (skipBlanks u) = skipBlanks u :=
      skipBlanks_of_ends (ends_skipBlanks u)
    rw [hkey] at h
    simp only [hsame] at h
    cases hkey' : keyword? (skipBlanks s') with
    | none =>
      simp only [hsame]
      exact h.worded hP hwords (ends_skipBlanks s) hskip hkept
    | some k => exact h.worded_keyword hP hwords hmid hc hskip hkept hkey'

theorem TakesMore.worded (hP : Fills words P) (hwords : AllNames words)
    {args : List Argument}
    (h : TakesMore P s args rest) (hs : Worded words s s')
    (hkept : ∀ a ∈ nestedInArgs args, KeepsValue words a) :
    ∃ args' rest', TakesMore P s' args' rest' ∧ Worded words rest rest' ∧
      referencesOfArgs args' = withoutWords words (referencesOfArgs args) := by
  induction h generalizing s' with
  | last first closed =>
    rw [nestedInArgs, nestedInArgs, List.append_nil] at hkept
    obtain ⟨a', mid', ha', hmid, hrefs⟩ :=
      first.worded hP hwords closed (.inr rfl) hs hkept
    have hskip := hmid.skipBlanks hwords
    rw [closed] at hskip
    obtain ⟨-, rest', hclosed, hrest⟩ := hskip.cons_inv (by decide)
    refine ⟨[a'], rest', .last ha' hclosed, hrest, ?_⟩
    rw [referencesOfArgs, referencesOfArgs, referencesOfArgs, referencesOfArgs, List.append_nil,
      List.append_nil, hrefs]
  | more first comma _ ih =>
    rw [nestedInArgs] at hkept
    obtain ⟨a', mid', ha', hmid, hrefs⟩ := first.worded hP hwords comma (.inl rfl) hs
      fun a ha => hkept a (List.mem_append_left _ ha)
    have hskip := hmid.skipBlanks hwords
    rw [comma] at hskip
    obtain ⟨-, next', hcomma, hnext⟩ := hskip.cons_inv (by decide)
    obtain ⟨args', rest', hargs', hrest, hmore⟩ := ih hnext
      fun a ha => hkept a (List.mem_append_right _ ha)
    refine ⟨a' :: args', rest', .more ha' hcomma hargs', hrest, ?_⟩
    rw [referencesOfArgs, referencesOfArgs, hrefs, hmore, withoutWords, withoutWords, withoutWords,
      List.filter_append]

theorem TakesArguments.worded (hP : Fills words P) (hwords : AllNames words)
    {args : List Argument}
    (h : TakesArguments P s args rest) (hs : Worded words s s')
    (hkept : ∀ a ∈ nestedInArgs args, KeepsValue words a) :
    ∃ args' rest', TakesArguments P s' args' rest' ∧ Worded words rest rest' ∧
      referencesOfArgs args' = withoutWords words (referencesOfArgs args) := by
  have hskip := hs.skipBlanks hwords
  cases h with
  | none closed =>
    rw [closed] at hskip
    obtain ⟨-, rest', hclosed, hrest⟩ := hskip.cons_inv (by decide)
    exact ⟨[], rest', .none hclosed, hrest, rfl⟩
  | some opened all =>
    obtain ⟨args', rest', hargs', hrest, hrefs⟩ := all.worded hP hwords hskip hkept
    refine ⟨args', rest', .some (fun hhead => ?_) hargs', hrest, hrefs⟩
    rcases hskip.head?_or hwords with hsame | ⟨-, x, hx, hword⟩
    · exact opened (hsame ▸ hhead)
    · rw [hx] at hhead
      rw [Option.some.inj hhead] at hword
      exact absurd hword (by decide)

end Rules

/-! ## Templates -/

/-- The induction is on the room for placeholders. -/
theorem fills_takesPlaceholder {words : Dict String} (hwords : AllNames words) (room : ℕ) :
    Fills words (TakesPlaceholder room) where
  toIsFramed := isFramed_takesPlaceholder room
  braced_of_var h := by
    cases room with
    | zero => exact h.elim
    | succ room => exact takesPlaceholder_var_iff.mp h
  braced_ne_name h := braced_ne_name_of_call h
  not_text := not_takesPlaceholder_text
  call {s s' rest c} h hs hkept := by
    cases room with
    | zero => exact h.elim
    | succ room =>
      obtain ⟨mid, hcall, hclosed⟩ := h
      cases hcall with
      | @call _ name mid' next _ args word_eq ne_nil opened all =>
        -- Up to its arguments the call has nothing that is replaced.
        obtain ⟨before, after, heq, hbefore, hisWord, hafter⟩ := exists_eq_append_word s
        rw [word_eq, opened] at heq
        rw [word_eq] at hisWord
        have hinert := inert_of_mem_append hbefore hisWord hafter (by decide : Inert '(')
        have hsplit (u : List Char) : before ++ (name ++ (after ++ '(' :: u)) =
            before ++ (name ++ (after ++ ['('])) ++ u := by simp
        rw [heq, hsplit] at hs
        obtain ⟨next', rfl, hnext⟩ := hs.of_append_inert hinert
        obtain ⟨args', last', hargs', hlast, hrefs⟩ :=
          all.worded (fills_takesPlaceholder hwords room) hwords hnext hkept
        have hskip := hlast.skipBlanks hwords
        rw [hclosed] at hskip
        obtain ⟨-, rest', hclosed', hrest⟩ := hskip.cons_inv (by decide)
        obtain ⟨mid'', hword, hopened⟩ := exists_word_skipBlanks next' hbefore hisWord hafter
          (by decide : isWord '(' = false) (by decide)
        rw [hsplit] at hword
        exact ⟨_, rest', ⟨last', .call hword ne_nil hopened hargs', hclosed'⟩, hrest, hrefs⟩

/-- A template parses again once its parameters have become words, and refers to the names that have
none, in the same order. -/
theorem references_apply_words {limit : ℕ} {text : String} {t : Template} {words : Dict String}
    (ht : parse limit text = .ok t) (hwords : AllNames words)
    (hplain : ∀ c ∈ text.toList, c ≠ '\\' ∧ c ≠ '"' ∧ c ≠ '\'')
    (hapart : Apart words text.toList) (hkept : ∀ a ∈ t.nestedArguments, KeepsValue words a) :
    ∃ t', parse limit (apply (words.mapValues plain) text) = .ok t' ∧
      t'.references = t.references.filter fun n => words.get? n = none := by
  obtain ⟨ps, hps, rfl⟩ := parse_eq_ok.mp ht
  have hmarkers : ∀ c ∈ text.toList, c ≠ '$' → c ∉ markers := by
    intro c hc hdollar
    have hc' := hplain c hc
    simp [markers, hdollar, hc']
  obtain ⟨s', hs⟩ := exists_worded hmarkers hapart
  rw [Template.nestedArguments, nestedInSegments_ofPieces] at hkept
  obtain ⟨ps', rest', hps', hrest, hrefs⟩ :=
    hps.worded (fills_takesPlaceholder hwords limit) hwords isUsual_never hs hkept
  rw [hrest.nil_inv] at hps'
  refine ⟨⟨ofPieces ps'⟩, parse_eq_ok.mpr ⟨ps', ?_, rfl⟩, ?_⟩
  · rwa [hs.apply_eq]
  · rw [Template.references, Template.references, referencesOfSegments_ofPieces,
      referencesOfSegments_ofPieces, hrefs, withoutWords]

/-- Only the reference that has no word is left, in the argument with the keyword. -/
theorem references_apply_words_pay :
    ∃ t t', parse 1 "pay $p by $\x7bcard(no=$a, $p)\x7d" = .ok t ∧ t.references = ["p", "a", "p"] ∧
      apply (Dict.mapValues plain [("p", "x1")]) "pay $p by $\x7bcard(no=$a, $p)\x7d" =
        "pay x1 by $\x7bcard(no=$a, x1)\x7d" ∧
      parse 1 "pay x1 by $\x7bcard(no=$a, x1)\x7d" = .ok t' ∧ t'.references = ["a"] := by
  have ht : parse 1 "pay $p by $\x7bcard(no=$a, $p)\x7d" =
      .ok ⟨[.text "pay ", .var "p", .text " by ", .call ⟨"card",
        [.expr (some "no") [.var "a"] "$a", .expr none [.var "p"] "$p"]⟩]⟩ := by cbv
  have hwords : AllNames [("p", "x1")] := by
    intro p w hget
    rw [Dict.get?_cons] at hget
    split at hget
    · cases hget
      exact ⟨by decide, List.all_eq_true.mp (by decide)⟩
    · cases hget
  have hapart : Apart [("p", "x1")] "pay $p by $\x7bcard(no=$a, $p)\x7d".toList := by
    unfold Apart
    decide +kernel
  have hkept : ∀ a ∈ [Argument.expr (some "no") [.var "a"] "$a", .expr none [.var "p"] "$p"],
      KeepsValue [("p", "x1")] a := by
    unfold KeepsValue
    simp only [List.forall_mem_cons]
    refine ⟨fun hkey => ?_, fun _ => by decide +kernel, by simp⟩
    cases hkey
  have happly : apply (Dict.mapValues plain [("p", "x1")])
      "pay $p by $\x7bcard(no=$a, $p)\x7d" = "pay x1 by $\x7bcard(no=$a, x1)\x7d" := by cbv
  obtain ⟨t', ht', hrefs⟩ := references_apply_words ht hwords
    (by simp) hapart hkept
  rw [happly] at ht'
  exact ⟨_, t', ht, rfl, happly, ht', hrefs.trans (by decide)⟩

/-- A word right behind a reference is read with its name, and a word in front of an equals sign
that ends an argument leaves nothing of it. -/
theorem references_apply_words_fails :
    (parse 0 "$a$p").map Template.references = .ok ["a", "p"] ∧
      apply (Dict.mapValues plain [("p", "x")]) "$a$p" = "$ax" ∧
      (parse 0 "$ax").map Template.references = .ok ["ax"] ∧
      (parse 1 "$\x7bf($p=)\x7d").map Template.references = .ok ["p"] ∧
      apply (Dict.mapValues plain [("p", "x")]) "$\x7bf($p=)\x7d" = "$\x7bf(x=)\x7d" ∧
      (parse 1 "$\x7bf(x=)\x7d").toOption.isSome = false := by
  decide +kernel

end Casebook.Template
