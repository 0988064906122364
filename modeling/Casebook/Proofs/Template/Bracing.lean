import Casebook.Proofs.Template.Calls

/-!
# Calls in braces

A call is written bare, as a name with or without arguments, or as a placeholder. Between the braces
of a placeholder stands the bare form, so putting a bare call into braces changes nothing about it but
the room it needs, and whatever is a call once it is put into braces is a bare call. The brace that
closes such a placeholder is the one that was put behind the text: what an earlier one would leave
behind it is not blank.
-/

namespace Casebook.Template

open Text Segment

/-- A placeholder stands for a call, a variable for one without arguments. -/
inductive StandsFor : Segment → Call → Prop where
  | call (c : Call) : StandsFor (.call c) c
  | var (name : String) : StandsFor (.var name) ⟨name, []⟩

/-- A text is a call in its bare form, as it is written between blanks. -/
inductive IsBareCall (limit : ℕ) : List Char → Call → Prop where
  | name {before name after : List Char} (before_blank : ∀ x ∈ before, isBlank x = true)
      (name_word : ∀ x ∈ name, isWord x = true) (ne_nil : name ≠ [])
      (after_blank : ∀ x ∈ after, isBlank x = true) :
      IsBareCall limit (before ++ (name ++ after)) ⟨String.ofList name, []⟩
  | call {before name between inner rest : List Char} {args : List Argument}
      (before_blank : ∀ x ∈ before, isBlank x = true) (name_word : ∀ x ∈ name, isWord x = true)
      (ne_nil : name ≠ []) (between_blank : ∀ x ∈ between, isBlank x = true)
      (all : ∀ t, TakesArguments (TakesPlaceholder limit) (inner ++ ')' :: t) args t)
      (rest_blank : ∀ x ∈ rest, isBlank x = true) :
      IsBareCall limit (before ++ (name ++ (between ++ '(' :: (inner ++ ')' :: rest))))
        ⟨String.ofList name, args⟩

section

variable {limit : ℕ} {s rest : List Char} {c : Call}

/-- Behind a dollar and a brace a placeholder is read, whatever it stands for. -/
theorem isCall_braces_iff :
    IsCall limit ('$' :: '\x7b' :: s) c ↔ ∃ segment rest,
      TakesPlaceholder limit s segment rest ∧ StandsFor segment c ∧ skipBlanks rest = [] := by
  constructor
  · intro h
    have hword : word ('$' :: '\x7b' :: s) = ([], '$' :: '\x7b' :: s) :=
      word_cons_of_not (by decide) _
    cases h with
    | braces inner done => exact ⟨_, _, inner, .call c, done⟩
    | var inner done => exact ⟨_, _, inner, .var _, done⟩
    | bare word_eq ne_nil => exact absurd (Prod.mk.inj (hword.symm.trans word_eq)).1.symm ne_nil
    | name word_eq ne_nil => exact absurd (Prod.mk.inj (hword.symm.trans word_eq)).1.symm ne_nil
  · rintro ⟨segment, rest, inner, hstands, done⟩
    cases hstands with
    | call => exact .braces inner done
    | var => exact .var inner done

/-! ## The bare form outside braces -/

/-- What is left when blanks are trimmed begins with the first character that is no blank. -/
theorem exists_trim_eq_cons {x : Char} {t : List Char} (h : skipBlanks s = x :: t) :
    ∃ t', trim s = x :: t' := by
  have hx : isBlank x = false := head?_skipBlanks s x (by rw [h]; rfl)
  obtain ⟨blanks, heq, hblanks⟩ := exists_eq_trimEnd_append (x :: t)
  rw [trim, h]
  cases htrim : trimEnd (x :: t) with
  | nil =>
    rw [htrim, List.nil_append] at heq
    have hblank := hblanks x (heq ▸ List.mem_cons_self)
    rw [hx] at hblank
    cases hblank
  | cons y t' =>
    rw [htrim] at heq
    exact ⟨t', by rw [(List.cons.inj heq).1]⟩

/-- A bare call does not begin with a dollar. -/
theorem IsBareCall.not_braced (h : IsBareCall limit s c) : ¬['$', '\x7b'] <+: trim s := by
  have hhead {before name behind : List Char} (hbefore : ∀ x ∈ before, isBlank x = true)
      (hname : ∀ x ∈ name, isWord x = true) (hne : name ≠ []) :
      ¬['$', '\x7b'] <+: trim (before ++ (name ++ behind)) := by
    obtain ⟨x, name, rfl⟩ := List.exists_cons_of_ne_nil hne
    have hx := hname x List.mem_cons_self
    have hskip : skipBlanks (before ++ (x :: name ++ behind)) = x :: (name ++ behind) :=
      skipBlanks_append_of_ends hbefore (ends_cons.mpr (isBlank_eq_false_of_isWord hx))
    obtain ⟨t', ht'⟩ := exists_trim_eq_cons hskip
    rw [ht']
    rintro ⟨u, hu⟩
    obtain rfl := (List.cons.inj hu).1
    exact absurd hx (by decide)
  cases h with
  | name before_blank name_word ne_nil => exact hhead before_blank name_word ne_nil
  | call before_blank name_word ne_nil => exact hhead before_blank name_word ne_nil

/-- A call that does not begin with a brace behind a dollar is a bare one. -/
theorem IsCall.isBareCall (h : IsCall limit (trim s) c) (hbraced : ¬['$', '\x7b'] <+: trim s) :
    IsBareCall limit s c := by
  obtain ⟨before, after, hs, hbefore, hafter⟩ := exists_eq_append_trim s
  -- Blanks that are left behind the call stand in front of those that were trimmed.
  have hblanks {blanks : List Char} (h : ∀ x ∈ blanks, isBlank x = true) :
      ∀ x ∈ blanks ++ after, isBlank x = true :=
    List.forall_mem_append.mpr ⟨h, hafter⟩
  rw [hs]
  generalize htrim : trim s = t at h hbraced
  cases h with
  | @braces t => exact absurd (List.prefix_append ['$', '\x7b'] t) hbraced
  | @var t => exact absurd (List.prefix_append ['$', '\x7b'] t) hbraced
  | @bare t name mid next rest args word_eq ne_nil opened all done =>
    obtain ⟨rfl, hname, -⟩ := word_eq_iff.mp word_eq
    obtain ⟨between, hmid, hbetween⟩ := exists_eq_skipBlanks_append mid
    obtain ⟨inner, rfl, hinner⟩ := all.frame (isFramed_takesPlaceholder limit)
    obtain ⟨blanks, hrest, hblank⟩ := exists_eq_skipBlanks_append rest
    rw [done, List.append_nil] at hrest
    rw [opened] at hmid
    have hcall := IsBareCall.call hbefore hname ne_nil hbetween hinner (hblanks (hrest ▸ hblank))
    rw [hmid]
    simpa using hcall
  | @name t name mid word_eq ne_nil done =>
    obtain ⟨rfl, hname, -⟩ := word_eq_iff.mp word_eq
    obtain ⟨blanks, hmid, hblank⟩ := exists_eq_skipBlanks_append mid
    rw [done, List.append_nil] at hmid
    have hcall : IsBareCall limit _ _ := .name hbefore hname ne_nil (hblanks (hmid ▸ hblank))
    simpa using hcall

theorem parseCall_of_isBareCall {text : String} (h : IsBareCall limit text.toList c) :
    parseCall limit text = .ok c := by
  generalize htext : text.toList = t at h
  cases h with
  | call before_blank name_word ne_nil between_blank all rest_blank =>
    refine parseCall_of_isCallText ?_
    rw [htext]
    exact .bare before_blank name_word ne_nil between_blank (all _) rest_blank
  | @name before name after before_blank name_word ne_nil after_blank =>
    refine parseCall_eq_ok.mpr ?_
    obtain ⟨front, x, rfl⟩ := (List.eq_nil_or_concat name).resolve_left ne_nil
    rw [List.concat_eq_append] at name_word ne_nil htext ⊢
    have hx : isBlank x = false :=
      isBlank_eq_false_of_isWord (name_word x (List.mem_append_right _ List.mem_cons_self))
    have hstart : Ends isBlank (front ++ [x]) := fun y hy =>
      isBlank_eq_false_of_isWord (name_word y (List.mem_of_head? hy))
    have htrim := trim_append_blanks before_blank after_blank hstart hx
    rw [htext, List.append_assoc, List.singleton_append, htrim]
    have hword := word_append_of_ends name_word (ends_nil isWord)
    rw [List.append_nil] at hword
    exact .name hword ne_nil rfl

/-! ## The bare form between braces -/

/-- A bare call in front of a closing brace is a placeholder, with room for one level more. -/
theorem IsBareCall.exists_takesPlaceholder (h : IsBareCall limit s c) (rest : List Char) :
    ∃ segment, TakesPlaceholder (limit + 1) (s ++ '\x7d' :: rest) segment rest ∧
      StandsFor segment c := by
  cases h with
  | @name before name after before_blank name_word ne_nil after_blank =>
    refine ⟨.var (String.ofList name), takesPlaceholder_var_iff.mpr ⟨name, ?_, ne_nil, rfl⟩, .var _⟩
    have hbraced := braced_append rest before_blank name_word after_blank
    simpa using hbraced
  | @call before name between inner blanks args before_blank name_word ne_nil between_blank all
      rest_blank =>
    have hclosed : skipBlanks (blanks ++ '\x7d' :: rest) = '\x7d' :: rest :=
      skipBlanks_append_of_ends rest_blank (ends_cons.mpr (by decide))
    obtain ⟨mid, hword, hopened⟩ := exists_word_skipBlanks
      (inner ++ ')' :: (blanks ++ '\x7d' :: rest)) before_blank name_word between_blank
      (by decide : isWord '(' = false) (by decide)
    refine ⟨.call ⟨String.ofList name, args⟩, ⟨_, ?_, hclosed⟩, .call _⟩
    simpa using TakesName.call hword ne_nil hopened (all (blanks ++ '\x7d' :: rest))

/-- A brace behind a text is the last in front of blanks only if the blanks are none. -/
theorem eq_of_append_brace {u blanks : List Char} (hblanks : skipBlanks blanks = [])
    (h : s ++ ['\x7d'] = u ++ '\x7d' :: blanks) : s = u ∧ blanks = [] := by
  obtain ⟨each, heq, hblank⟩ := exists_eq_skipBlanks_append blanks
  rw [hblanks, List.append_nil] at heq
  subst heq
  rcases List.eq_nil_or_concat blanks with rfl | ⟨front, x, rfl⟩
  · exact ⟨List.append_cancel_right h, rfl⟩
  · rw [List.concat_eq_append] at h hblank
    rw [← List.cons_append, ← List.append_assoc] at h
    have hx : ['\x7d'] = [x] := (List.append_inj' h rfl).2
    obtain rfl := (List.cons.inj hx).1
    exact absurd (hblank _ (List.mem_append_right _ List.mem_cons_self)) (by decide)

/-- What is a placeholder with nothing behind it but blanks, once a brace is put behind the text, is
a bare call. -/
theorem isBareCall_of_takesPlaceholder {segment : Segment}
    (h : TakesPlaceholder (limit + 1) (s ++ ['\x7d']) segment rest) (hstands : StandsFor segment c)
    (hrest : skipBlanks rest = []) : IsBareCall limit s c := by
  obtain ⟨mid, hname, hclosed⟩ := h
  obtain ⟨before, after, hs, hbefore, hword, hafter⟩ := exists_eq_append_word (s ++ ['\x7d'])
  cases hname with
  | @var _ name mid' word_eq ne_nil no_call =>
    cases hstands
    rw [skipBlanks_of_ends (ends_skipBlanks mid')] at hclosed
    rw [word_eq] at hs hword
    rw [hclosed] at hs
    have hfront : s ++ ['\x7d'] = before ++ (name ++ after) ++ '\x7d' :: rest := by simpa using hs
    rw [(eq_of_append_brace hrest hfront).1]
    exact .name hbefore hword ne_nil hafter
  | @call _ name mid' next _ args word_eq ne_nil opened all =>
    cases hstands
    obtain ⟨inner, rfl, hinner⟩ := all.frame (isFramed_takesPlaceholder limit)
    obtain ⟨blanks, hmid, hblanks⟩ := exists_eq_skipBlanks_append mid
    rw [word_eq] at hs hword
    rw [opened, hmid, hclosed] at hs
    have hfront : s ++ ['\x7d'] =
        before ++ (name ++ (after ++ '(' :: (inner ++ ')' :: blanks))) ++ '\x7d' :: rest := by
      simpa using hs
    rw [(eq_of_append_brace hrest hfront).1]
    exact .call hbefore hword ne_nil hafter hinner hblanks

end

/-- A text in braces is a call, with room for one level more, exactly if the text is a call in its
bare form, and it is the same call: of the same name, with the same arguments. A text that has braces
already is no call in another pair of them. -/
theorem parseCall_braces_iff (limit : ℕ) (text : String) (c : Call) :
    parseCall (limit + 1) ("$\x7b" ++ text ++ "\x7d") = .ok c ↔
      parseCall limit text = .ok c ∧ ¬['$', '\x7b'] <+: trim text.toList := by
  have htrim : trim ("$\x7b" ++ text ++ "\x7d").toList =
      '$' :: '\x7b' :: (text.toList ++ ['\x7d']) := by
    have hnone : ∀ x ∈ ([] : List Char), isBlank x = true := nofun
    have hstart : Ends isBlank ('$' :: '\x7b' :: text.toList ++ ['\x7d']) := ends_cons.mpr (by decide)
    have h := trim_append_blanks hnone hnone hstart (by decide)
    simpa [String.toList_append] using h
  rw [parseCall_eq_ok, htrim, isCall_braces_iff]
  constructor
  · rintro ⟨segment, rest, hinner, hstands, hrest⟩
    have hbare := isBareCall_of_takesPlaceholder hinner hstands hrest
    exact ⟨parseCall_of_isBareCall hbare, hbare.not_braced⟩
  · rintro ⟨hcall, hbraced⟩
    have hbare := (parseCall_eq_ok.mp hcall).isBareCall hbraced
    obtain ⟨segment, hinner, hstands⟩ := hbare.exists_takesPlaceholder []
    exact ⟨segment, [], hinner, hstands, rfl⟩

end Casebook.Template
