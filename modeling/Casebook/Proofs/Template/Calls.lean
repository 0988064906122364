import Casebook.Proofs.Template.Extent

/-!
# Calls

A call is a verb with its arguments, bare or in braces. Its arguments are read behind the opening
parenthesis as those of any placeholder are, so an argument of a call can be read again from its own
text, and whatever makes its text the text of another call is proved of `TakesArguments`.
-/

namespace Casebook.Template

open Text Segment Substitution Casebook.Computation

/-- A text without outer blanks is a call. -/
inductive IsCall (limit : ℕ) : List Char → Call → Prop where
  | braces {s rest : List Char} {c : Call} (inner : TakesPlaceholder limit s (.call c) rest)
      (done : skipBlanks rest = []) : IsCall limit ('$' :: '\x7b' :: s) c
  /-- A variable counts as a call without arguments. -/
  | var {s rest : List Char} {name : String}
      (inner : TakesPlaceholder limit s (.var name) rest) (done : skipBlanks rest = []) :
      IsCall limit ('$' :: '\x7b' :: s) ⟨name, []⟩
  | bare {s name mid next rest : List Char} {args : List Argument}
      (word_eq : word s = (name, mid)) (ne_nil : name ≠ []) (opened : skipBlanks mid = '(' :: next)
      (all : TakesArguments (TakesPlaceholder limit) next args rest)
      (done : skipBlanks rest = []) : IsCall limit s ⟨String.ofList name, args⟩
  | name {s name mid : List Char} (word_eq : word s = (name, mid)) (ne_nil : name ≠ [])
      (done : skipBlanks mid = []) : IsCall limit s ⟨String.ofList name, []⟩

section

variable {limit : ℕ} {s : List Char} {c : Call}

theorem readCall_eq_ok :
    readCall limit s = .ok c ↔
      ∃ rest, callInFront limit s = .ok (c, rest) ∧ skipBlanks rest = [] := by
  unfold readCall
  constructor
  · intro h
    split at h
    · cases h
    next c' rest hfront =>
    split at h
    · next hdone =>
      cases h
      exact ⟨rest, hfront, hdone⟩
    · cases h
  · intro h
    obtain ⟨rest, hfront, hdone⟩ := h
    simp only [hfront, hdone]

/-- A word in front makes a call in its bare form. -/
theorem callInFront_of_word {name mid : List Char} (hword : word s = (name, mid))
    (hname : name ≠ []) : callInFront limit s = bareCall limit s := by
  unfold callInFront
  split
  · next inner =>
    rw [word_cons_of_not (by decide)] at hword
    exact absurd (Prod.mk.inj hword).1.symm hname
  · rfl

theorem isCall_of_readCall (h : readCall limit s = .ok c) : IsCall limit s c := by
  obtain ⟨rest, hfront, hdone⟩ := readCall_eq_ok.mp h
  unfold callInFront at hfront
  split at hfront
  · next inner =>
    obtain ⟨⟨segment, last, hlast⟩, hread, heq⟩ := map_eq_ok.mp hfront
    have hinner : TakesPlaceholder limit inner segment last := by
      rw [← reads_placeholder]
      exact ⟨hlast, hread⟩
    cases segment with
    | text => exact absurd hinner not_takesPlaceholder_text
    | var name =>
      cases heq
      exact .var hinner hdone
    | call c' =>
      cases heq
      exact .braces hinner hdone
  · unfold bareCall at hfront
    rcases hword : word s with ⟨name, mid⟩
    simp only [hword, List.isEmpty_iff] at hfront
    split at hfront
    · cases hfront
    next hname =>
    split at hfront
    · next next hopened =>
      obtain ⟨⟨args, last, hlast⟩, hread, heq⟩ := map_eq_ok.mp hfront
      cases heq
      have hall : TakesArguments (Reads (placeholder limit)) next args last :=
        reads_arguments_iff.mp ⟨hlast, hread⟩
      rw [reads_placeholder] at hall
      exact .bare hword hname hopened hall hdone
    · next hopened =>
      cases hfront
      have hskip : skipBlanks (skipBlanks mid) = skipBlanks mid :=
        skipBlanks_of_ends (ends_skipBlanks mid)
      rw [hskip] at hdone
      exact .name hword hname hdone

theorem readCall_of_isCall (h : IsCall limit s c) : readCall limit s = .ok c := by
  refine readCall_eq_ok.mpr ?_
  cases h with
  | @braces s rest c inner done =>
    rw [← reads_placeholder] at inner
    obtain ⟨hrest, hread⟩ := inner
    exact ⟨rest, by simp [callInFront, hread, Except.map], done⟩
  | @var s rest name inner done =>
    rw [← reads_placeholder] at inner
    obtain ⟨hrest, hread⟩ := inner
    exact ⟨rest, by simp [callInFront, hread, Except.map], done⟩
  | @bare s name mid next rest args word_eq ne_nil opened all done =>
    rw [← reads_placeholder] at all
    obtain ⟨hrest, hread⟩ := reads_arguments_iff.mpr all
    refine ⟨rest, ?_, done⟩
    rw [callInFront_of_word word_eq ne_nil, bareCall]
    simp [word_eq, ne_nil, opened, hread, Except.map]
  | @name s name mid word_eq ne_nil done =>
    refine ⟨[], ?_, rfl⟩
    rw [callInFront_of_word word_eq ne_nil, bareCall]
    simp [word_eq, ne_nil, done]

end

/-- A text parses to the call that it is once blanks are trimmed. -/
theorem parseCall_eq_ok {limit : ℕ} {text : String} {c : Call} :
    parseCall limit text = .ok c ↔ IsCall limit (trim text.toList) c := by
  have hread : parseCall limit text = .ok c ↔ readCall limit (trim text.toList) = .ok c := by
    unfold parseCall
    cases readCall limit (trim text.toList) with
    | error e => constructor <;> intro h <;> cases h
    | ok c' => constructor <;> intro h <;> cases h <;> rfl
  rw [hread]
  exact ⟨isCall_of_readCall, readCall_of_isCall⟩

/-! ## Calls with arguments -/

/-- A text is a call with arguments, as it is written, perhaps between blanks. -/
inductive IsCallText (limit : ℕ) : List Char → Call → Prop where
  | braces {before s rest : List Char} {c : Call} (before_blank : ∀ x ∈ before, isBlank x = true)
      (inner : TakesPlaceholder limit s (.call c) rest)
      (rest_blank : ∀ x ∈ rest, isBlank x = true) :
      IsCallText limit (before ++ '$' :: '\x7b' :: s) c
  | bare {before name after s rest : List Char} {args : List Argument}
      (before_blank : ∀ x ∈ before, isBlank x = true) (name_word : ∀ x ∈ name, isWord x = true)
      (ne_nil : name ≠ []) (after_blank : ∀ x ∈ after, isBlank x = true)
      (all : TakesArguments (TakesPlaceholder limit) s args rest)
      (rest_blank : ∀ x ∈ rest, isBlank x = true) :
      IsCallText limit (before ++ (name ++ (after ++ '(' :: s))) ⟨String.ofList name, args⟩

section

variable {limit : ℕ} {text : String} {c : Call}

theorem isCallText_of_parseCall (h : parseCall limit text = .ok c) (hargs : c.args ≠ []) :
    IsCallText limit text.toList c := by
  have hcall := parseCall_eq_ok.mp h
  obtain ⟨before, after, htext, hbefore, hafter⟩ := exists_eq_append_trim text.toList
  -- Blanks behind the call are trimmed, and the call may end in front of other blanks.
  have hblanks {rest : List Char} (hrest : skipBlanks rest = []) :
      ∀ x ∈ rest ++ after, isBlank x = true := by
    obtain ⟨blanks, heq, hisBlank⟩ := exists_eq_skipBlanks_append rest
    rw [hrest, List.append_nil] at heq
    intro x hx
    rcases List.mem_append.mp hx with hx | hx
    · exact hisBlank x (heq ▸ hx)
    · exact hafter x hx
  rw [htext]
  generalize htrim : trim text.toList = t at hcall
  cases hcall with
  | var | name => exact absurd rfl hargs
  | @braces s rest c inner done =>
    obtain ⟨u, rfl, hu⟩ := (isFramed_takesPlaceholder limit).frame inner
    have hcall := IsCallText.braces hbefore (hu (rest ++ after)) (hblanks done)
    simpa using hcall
  | @bare s name mid next rest args word_eq ne_nil opened all done =>
    obtain ⟨rfl, hisWord, -⟩ := word_eq_iff.mp word_eq
    obtain ⟨blanks, hmid, hisBlank⟩ := exists_eq_skipBlanks_append mid
    obtain ⟨u, rfl, hu⟩ := all.frame (isFramed_takesPlaceholder limit)
    have hcall := IsCallText.bare hbefore hisWord ne_nil hisBlank (hu (rest ++ after))
      (hblanks done)
    rw [hmid, opened]
    simpa using hcall

theorem parseCall_of_isCallText (h : IsCallText limit text.toList c) :
    parseCall limit text = .ok c := by
  refine parseCall_eq_ok.mpr ?_
  generalize text.toList = t at h
  cases h with
  | @braces before s rest c before_blank inner rest_blank =>
    obtain ⟨u, rfl, hu⟩ := (isFramed_takesPlaceholder limit).frame inner
    have hstart : Ends isBlank ('$' :: '\x7b' :: u ++ ['\x7d']) := ends_cons.mpr (by decide)
    have htrim := trim_append_blanks before_blank rest_blank hstart (by decide)
    rw [List.cons_append, List.cons_append] at htrim
    rw [htrim]
    exact .braces (hu []) rfl
  | @bare before name after s rest args before_blank name_word ne_nil after_blank all rest_blank =>
    obtain ⟨u, rfl, hu⟩ := all.frame (isFramed_takesPlaceholder limit)
    have hstart : Ends isBlank (name ++ (after ++ '(' :: u) ++ [')']) := by
      obtain ⟨x, name, rfl⟩ := List.exists_cons_of_ne_nil ne_nil
      exact ends_cons.mpr (isBlank_eq_false_of_isWord (name_word x List.mem_cons_self))
    have htrim := trim_append_blanks before_blank rest_blank hstart (by decide)
    have hends : Ends isWord (after ++ '(' :: (u ++ [')'])) := by
      cases after with
      | nil => exact ends_cons.mpr (by decide)
      | cons x after =>
        exact ends_cons.mpr (isWord_eq_false_of_isBlank (after_blank x List.mem_cons_self))
    have hopened : skipBlanks (after ++ '(' :: (u ++ [')'])) = '(' :: (u ++ [')']) :=
      skipBlanks_append_of_ends after_blank (ends_cons.mpr (by decide))
    have hcall := IsCall.bare (word_append_of_ends name_word hends) ne_nil hopened (hu []) rfl
    simp only [List.append_assoc, List.cons_append] at htrim
    rw [htrim]
    exact hcall

end

/-! ## Arguments of calls -/

section

variable {P : Rule Segment} {s rest : List Char}

/-- A keyword is a word, perhaps blanks, and an equals sign. -/
theorem keyword?_eq_some_iff_append {after : List Char} {name : String} :
    keyword? s = some (name, after) ↔ ∃ w blanks, s = w ++ (blanks ++ '=' :: after) ∧ w ≠ [] ∧
      (∀ c ∈ w, isWord c = true) ∧ (∀ c ∈ blanks, isBlank c = true) ∧ after.head? ≠ some '=' ∧
      String.ofList w = name := by
  rw [keyword?_eq_some_iff]
  constructor
  · rintro ⟨w, mid, hword, hw, hskip, hsingle, hname⟩
    obtain ⟨rfl, hisWord, -⟩ := word_eq_iff.mp hword
    obtain ⟨blanks, hmid, hblanks⟩ := exists_eq_skipBlanks_append mid
    rw [hskip] at hmid
    exact ⟨w, blanks, by rw [hmid], hw, hisWord, hblanks, hsingle, hname⟩
  · rintro ⟨w, blanks, rfl, hw, hisWord, hblanks, hsingle, hname⟩
    have hends : Ends isWord (blanks ++ '=' :: after) := by
      cases blanks with
      | nil => exact ends_cons.mpr (by decide)
      | cons x blanks =>
        exact ends_cons.mpr (isWord_eq_false_of_isBlank (hblanks x List.mem_cons_self))
    exact ⟨w, _, word_append_of_ends hisWord hends, hw,
      skipBlanks_append_of_ends hblanks (ends_cons.mpr (by decide)), hsingle, hname⟩

/-- A text that has a keyword in front of an equals sign has it whatever follows, unless the sign
is doubled. -/
theorem keyword?_append {u after t : List Char} {name : String}
    (h : keyword? u = some (name, after))
    (ht : t.head? ≠ some '=') : keyword? (u ++ t) = some (name, after ++ t) := by
  obtain ⟨w, blanks, rfl, hw, hisWord, hblanks, hsingle, hname⟩ :=
    keyword?_eq_some_iff_append.mp h
  refine keyword?_eq_some_iff_append.mpr
    ⟨w, blanks, by simp, hw, hisWord, hblanks, ?_, hname⟩
  cases after with
  | nil => exact ht
  | cons x after => exact hsingle

/-- Blanks behind a text give it no keyword. -/
theorem keyword_append_blanks {blanks : List Char} (hblanks : ∀ c ∈ blanks, isBlank c = true)
    (u : List Char) : keyword (u ++ blanks) = ((keyword u).1, (keyword u).2 ++ blanks) := by
  have hequals : '=' ∉ blanks := fun hmem => absurd (hblanks _ hmem) (by decide)
  have hhead : blanks.head? ≠ some '=' := fun hhead => hequals (List.mem_of_head? hhead)
  unfold keyword
  cases hu : keyword? u with
  | some k => rw [keyword?_append hu hhead]
  | none =>
    cases hmore : keyword? (u ++ blanks) with
    | none => rfl
    | some k =>
      -- The equals sign is no blank, so the keyword would be one of the text.
      obtain ⟨w, bs, heq, hw, hisWord, hbs, hsingle, hname⟩ :=
        keyword?_eq_some_iff_append.mp hmore
      rw [← List.append_assoc] at heq
      rcases List.append_eq_append_iff.mp heq with ⟨v, -, hv⟩ | ⟨v, hu', hv⟩
      · rw [hv] at hequals
        exact absurd (List.mem_append_right v List.mem_cons_self) hequals
      · cases v with
        | nil =>
          rw [← List.nil_append blanks, ← hv] at hequals
          exact absurd List.mem_cons_self hequals
        | cons x v =>
          obtain ⟨rfl, hafter⟩ := List.cons.inj hv
          have hsingle' : v.head? ≠ some '=' := by
            intro hhead
            obtain ⟨v', rfl⟩ := List.head?_eq_some_iff.mp hhead
            exact hsingle (by rw [hafter]; rfl)
          rw [List.append_assoc] at hu'
          have hsome := keyword?_eq_some_iff_append.mpr
            ⟨w, bs, hu', hw, hisWord, hbs, hsingle', hname⟩
          rw [hu] at hsome
          cases hsome

/-- No value begins with what ends an argument. -/
theorem not_takesValue_closes {c : Char} (hc : c = ',' ∨ c = ')') {key : Option String}
    {a : Argument} {t : List Char} : ¬TakesValue P key (c :: t) a rest := by
  intro h
  cases h with
  | quoted quote => rcases hc with rfl | rfl <;> exact absurd quote (by decide)
  | unquoted _ body ne_nil =>
    -- The text of the argument would end where it begins.
    cases body with
    | done => exact ne_nil rfl
    | more goes_on => rcases hc with rfl | rfl <;> exact absurd goes_on (by decide)

/-- No argument begins with a closing parenthesis. -/
theorem TakesArgument.head?_ne {a : Argument} (h : TakesArgument P s a rest) :
    (skipBlanks s).head? ≠ some ')' := by
  intro hhead
  obtain ⟨t, ht⟩ := List.head?_eq_some_iff.mp hhead
  have hkey : keyword (')' :: t) = (none, ')' :: t) := by
    rw [keyword, keyword?, word_cons_of_not (by decide)]
  rw [TakesArgument, ht, hkey, skipBlanks_of_ends (ends_cons.mpr (by decide))] at h
  exact not_takesValue_closes (.inr rfl) h

/-- The first argument skips the blanks in front of it. -/
theorem takesMore_skipBlanks {args : List Argument} :
    TakesMore P (skipBlanks s) args rest ↔ TakesMore P s args rest := by
  have hskip : skipBlanks (skipBlanks s) = skipBlanks s := skipBlanks_of_ends (ends_skipBlanks s)
  have hfirst (a : Argument) (mid : List Char) :
      TakesArgument P (skipBlanks s) a mid ↔ TakesArgument P s a mid := by
    rw [TakesArgument, TakesArgument, hskip]
  constructor
  · intro h
    cases h with
    | last first closed => exact .last ((hfirst _ _).mp first) closed
    | more first comma others => exact .more ((hfirst _ _).mp first) comma others
  · intro h
    cases h with
    | last first closed => exact .last ((hfirst _ _).mpr first) closed
    | more first comma others => exact .more ((hfirst _ _).mpr first) comma others

/-- Arguments up to the closing parenthesis are what stands behind an opening one. -/
theorem TakesMore.arguments {args : List Argument} (h : TakesMore P s args rest) :
    TakesArguments P s args rest := by
  refine .some ?_ (takesMore_skipBlanks.mpr h)
  cases h with
  | last first closed => exact first.head?_ne
  | more first comma others => exact first.head?_ne

/-- Blanks may stand in front of arguments. -/
theorem TakesArguments.append_blanks {blanks : List Char}
    (hblanks : ∀ c ∈ blanks, isBlank c = true) {args : List Argument}
    (h : TakesArguments P s args rest) : TakesArguments P (blanks ++ s) args rest := by
  have hskip : skipBlanks (blanks ++ s) = skipBlanks s := List.dropWhile_append_of_pos hblanks
  cases h with
  | none closed => exact .none (hskip.trans closed)
  | some opened all =>
    refine .some ?_ ?_
    · rwa [hskip]
    · rwa [hskip]

/-- A text is an argument in front of any comma or parenthesis. -/
def IsArgument (P : Rule Segment) (s : List Char) (a : Argument) : Prop :=
  ∀ (c : Char) (rest : List Char), c = ',' ∨ c = ')' →
    ∃ mid, TakesArgument P (s ++ c :: rest) a mid ∧ skipBlanks mid = c :: rest

/-- An argument that can be read again from its own text. -/
structure Rereads (P : Rule Segment) (a : Argument) : Prop where
  starts : Ends isBlank a.raw.toList
  value (key : Option String) {c : Char} (hc : c = ',' ∨ c = ')') (rest : List Char) :
    ∃ mid, TakesValue P key (a.raw.toList ++ c :: rest) (a.withKey key) mid ∧
      skipBlanks mid = c :: rest
  no_keyword (hkey : a.key = none) : keyword a.raw.toList = (none, a.raw.toList)

theorem Rereads.ne_nil {a : Argument} (h : Rereads P a) : a.raw.toList ≠ [] := by
  intro hnil
  obtain ⟨mid, hvalue, -⟩ := h.value none (.inr rfl) []
  rw [hnil] at hvalue
  exact not_takesValue_closes (.inr rfl) hvalue

theorem TakesArgument.rereads (hP : IsFramed P) {a : Argument} {mid : List Char} {c : Char}
    (h : TakesArgument P s a mid) (hmid : skipBlanks mid = c :: rest) (hc : c = ',' ∨ c = ')') :
    Rereads P a := by
  obtain ⟨u, rfl, -⟩ := h.frame hP hmid hc
  have hvalue := (takesArgument_append_cons (isBarrier_of_closes hc)).mp h
  obtain ⟨blanks, heq, hblanks, hreread⟩ := hvalue.reread hP hmid
  have htext : skipBlanks (keyword (skipBlanks u)).2 = a.raw.toList ++ blanks := by
    rw [← List.append_assoc] at heq
    exact List.append_cancel_right heq
  refine ⟨?_, fun key c' hc' rest' => ?_, fun hkey => ?_⟩
  · intro x hx
    have hends : Ends isBlank (a.raw.toList ++ blanks) := htext ▸ ends_skipBlanks _
    refine hends x ?_
    cases hraw : a.raw.toList with
    | nil =>
      rw [hraw] at hx
      cases hx
    | cons y more => rwa [hraw] at hx
  · have hnone : ∀ x ∈ ([] : List Char), isBlank x = true := by simp
    exact hreread key [] c' rest' hnone hc'
  · -- A keyword of the text would be one of the text with blanks behind it.
    rw [hvalue.key_eq] at hkey
    unfold keyword at hkey htext ⊢
    cases hnone : keyword? (skipBlanks u) with
    | some k =>
      rw [hnone] at hkey
      cases hkey
    | none =>
      rw [hnone] at htext
      simp only [skipBlanks_of_ends (ends_skipBlanks u)] at htext
      cases hraw : keyword? a.raw.toList with
      | none => rfl
      | some k =>
        have hhead : blanks.head? ≠ some '=' := by
          intro hhead
          have hequals := hblanks '=' (List.mem_of_head? hhead)
          exact absurd hequals (by decide)
        have hsome := keyword?_append hraw hhead
        rw [← htext, hnone] at hsome
        cases hsome

theorem TakesMore.rereads (hP : IsFramed P) {args : List Argument} (h : TakesMore P s args rest) :
    ∀ a ∈ args, Rereads P a := by
  induction h with
  | last first closed =>
    intro a ha
    rw [List.mem_singleton.mp ha]
    exact first.rereads hP closed (.inr rfl)
  | more first comma _ ih =>
    intro a ha
    rcases List.mem_cons.mp ha with rfl | ha
    · exact first.rereads hP comma (.inl rfl)
    · exact ih a ha

theorem TakesArguments.rereads (hP : IsFramed P) {args : List Argument}
    (h : TakesArguments P s args rest) : ∀ a ∈ args, Rereads P a := by
  cases h with
  | none => simp
  | some _ all => exact all.rereads hP

end

/-- With more room an argument can be read again as well. -/
theorem Rereads.mono {room room' : ℕ} (hroom : room ≤ room') {a : Argument}
    (h : Rereads (TakesPlaceholder room) a) : Rereads (TakesPlaceholder room') a where
  starts := h.starts
  value key c hc rest := by
    obtain ⟨mid, hvalue, hmid⟩ := h.value key hc rest
    exact ⟨mid, hvalue.mono fun _ _ _ => TakesPlaceholder.mono hroom, hmid⟩
  no_keyword := h.no_keyword

/-- The arguments of a call can be read again with the room the call was read in. -/
theorem IsCall.rereads {limit : ℕ} {s : List Char} {c : Call} (h : IsCall limit s c) :
    ∀ a ∈ c.args, Rereads (TakesPlaceholder limit) a := by
  cases h with
  | braces inner =>
    cases limit with
    | zero => exact inner.elim
    | succ room =>
      obtain ⟨mid, hcall, -⟩ := inner
      cases hcall with
      | call _ _ _ all =>
        intro a ha
        exact (all.rereads (isFramed_takesPlaceholder room) a ha).mono (Nat.le_succ room)
  | var => simp
  | bare _ _ _ all => exact all.rereads (isFramed_takesPlaceholder limit)
  | name => simp

/-- A call that is read is canonical. -/
theorem IsCall.canonical {limit : ℕ} {s : List Char} {c : Call} (h : IsCall limit s c) :
    CanonicalArgs c.args := by
  cases h with
  | @braces _ _ c inner =>
    cases c
    exact (canonicalRule_takesPlaceholder limit _ _ _ inner).1.2
  | var => trivial
  | bare _ _ _ all => exact all.canonical (canonicalRule_takesPlaceholder limit)
  | name => trivial

end Casebook.Template
