import Casebook.Proofs.Template.References

/-!
# Renaming in the text of a template

`Renamed s s' names` says that one text becomes another when each reference either stays or becomes
a name in braces; `names` lists what the references were and what they became. Behind two dollars,
which stand for one, plain text may change too: whoever takes the second of them for a reference
changes no more than that.

The rules of the grammar follow such a change: what they take from a text they take from the renamed
text as well, with one level of room more for the braces, and the references they find are the names
in the list, in order.
-/

namespace Casebook.Template

open Text Segment Substitution

/-! ## Renaming references -/

/-- Blanks and a word in front of a character that means nothing mean nothing. -/
theorem inert_of_mem_append {before name after : List Char} {c : Char}
    (hbefore : ∀ c ∈ before, isBlank c = true) (hname : ∀ c ∈ name, isWord c = true)
    (hafter : ∀ c ∈ after, isBlank c = true) (hc : Inert c) :
    ∀ x ∈ before ++ (name ++ (after ++ [c])), Inert x := by
  intro x hx
  rcases List.mem_append.mp hx with hx | hx
  · exact inert_of_isBlank (hbefore x hx)
  rcases List.mem_append.mp hx with hx | hx
  · exact inert_of_isWord (hname x hx)
  rcases List.mem_append.mp hx with hx | hx
  · exact inert_of_isBlank (hafter x hx)
  · rwa [List.mem_singleton.mp hx]

/-- Behind its dollar a reference means nothing. -/
theorem Refers.exists_inert {name written rest : List Char} (h : Refers name written rest) :
    ∃ text, written = '$' :: text ∧ text ≠ [] ∧ ∀ c ∈ text, Inert c := by
  cases h with
  | plain ne_nil hname => exact ⟨name, rfl, ne_nil, fun c hc => inert_of_isWord (hname c hc)⟩
  | braces hbefore hname hafter =>
    refine ⟨_, rfl, List.cons_ne_nil _ _, fun c hc => ?_⟩
    rcases List.mem_cons.mp hc with rfl | hc
    · decide
    · exact inert_of_mem_append hbefore hname hafter (by decide) c hc

/-- A text becomes another when each of its references stays or becomes a name in braces. -/
inductive Renamed : List Char → List Char → List (String × String) → Prop where
  | nil : Renamed [] [] []
  | char {c : Char} {s s' : List Char} {names : List (String × String)} (ne_dollar : c ≠ '$')
      (more : Renamed s s' names) : Renamed (c :: s) (c :: s') names
  /-- Behind two dollars text that means nothing may change. -/
  | dollars {text text' s s' t t' : List Char} {names : List (String × String)}
      (inert : ∀ c ∈ text, Inert c) (inert' : ∀ c ∈ text', Inert c) (more : Renamed s s' names)
      (eq : t = text ++ s) (eq' : t' = text' ++ s') :
      Renamed ('$' :: '$' :: t) ('$' :: '$' :: t') names
  /-- A dollar that refers to nothing. -/
  | dollar {s s' : List Char} {names : List (String × String)} (ne_dollar : s.head? ≠ some '$')
      (lone : ∀ name written rest, written ++ rest = '$' :: s → ¬Refers name written rest)
      (more : Renamed s s' names) : Renamed ('$' :: s) ('$' :: s') names
  | kept {name written s s' t t' : List Char} {names : List (String × String)}
      (refers : Refers name written s) (more : Renamed s s' names) (eq : t = written ++ s)
      (eq' : t' = written ++ s') :
      Renamed t t' ((String.ofList name, String.ofList name) :: names)
  | renamed {name written s s' t t' : List Char} {new : String} {names : List (String × String)}
      (refers : Refers name written s) (isName : IsName new) (more : Renamed s s' names)
      (eq : t = written ++ s) (eq' : t' = '$' :: '\x7b' :: (new.toList ++ '\x7d' :: s')) :
      Renamed t t' ((String.ofList name, new) :: names)

section Renamed

variable {s s' : List Char} {names : List (String × String)} {c : Char}

theorem Refers.head? {name written rest : List Char} (h : Refers name written rest)
    (s : List Char) : (written ++ s).head? = some '$' := by
  cases h <;> rfl

/-- A renamed text begins with the same character. -/
theorem Renamed.head? (h : Renamed s s' names) : s'.head? = s.head? := by
  cases h with
  | nil => rfl
  | char => rfl
  | dollars => rfl
  | dollar => rfl
  | kept refers _ eq eq' => rw [eq, eq', refers.head?, refers.head?]
  | renamed refers _ _ eq eq' => rw [eq, eq', refers.head?]; rfl

theorem Renamed.cons_inv (h : Renamed (c :: s) s' names) (hc : c ≠ '$') :
    ∃ t', s' = c :: t' ∧ Renamed s t' names := by
  have hdollar (hhead : (c :: s).head? = some '$') : False := hc (by simpa using hhead)
  cases h with
  | char _ more => exact ⟨_, rfl, more⟩
  | dollars => exact absurd rfl hc
  | dollar => exact absurd rfl hc
  | kept refers _ eq => exact (hdollar (by rw [eq, refers.head?])).elim
  | renamed refers _ _ eq => exact (hdollar (by rw [eq, refers.head?])).elim

theorem Renamed.nil_inv (h : Renamed [] s' names) : s' = [] ∧ names = [] := by
  have hdollar (hhead : ([] : List Char).head? = some '$') : False := by cases hhead
  cases h with
  | nil => exact ⟨rfl, rfl⟩
  | kept refers _ eq => exact (hdollar (by rw [eq, refers.head?])).elim
  | renamed refers _ _ eq => exact (hdollar (by rw [eq, refers.head?])).elim

/-- A run of characters of a kind without the dollar is not renamed. -/
theorem Renamed.dropWhile {p : Char → Bool} (hp : p '$' = false) (h : Renamed s s' names) :
    s'.takeWhile p = s.takeWhile p ∧ Renamed (s.dropWhile p) (s'.dropWhile p) names := by
  induction s generalizing s' with
  | nil =>
    obtain ⟨rfl, rfl⟩ := h.nil_inv
    exact ⟨rfl, .nil⟩
  | cons c s ih =>
    have hhead := h.head?
    obtain ⟨t', rfl⟩ := List.head?_eq_some_iff.mp hhead
    by_cases hc : p c = true
    · -- No dollar is of the kind, so the character stays and what follows is renamed.
      have hdollar : c ≠ '$' := by rintro rfl; rw [hp] at hc; cases hc
      obtain ⟨u', hu, hmore⟩ := h.cons_inv hdollar
      obtain rfl := (List.cons.inj hu).2
      rw [List.takeWhile_cons_of_pos hc, List.takeWhile_cons_of_pos hc,
        List.dropWhile_cons_of_pos hc, List.dropWhile_cons_of_pos hc]
      exact ⟨congrArg _ (ih hmore).1, (ih hmore).2⟩
    · rw [List.takeWhile_cons_of_neg hc, List.takeWhile_cons_of_neg hc,
        List.dropWhile_cons_of_neg hc, List.dropWhile_cons_of_neg hc]
      exact ⟨rfl, h⟩

/-- Blanks in front stay as they are. -/
theorem Renamed.skipBlanks (h : Renamed s s' names) :
    Renamed (skipBlanks s) (Text.skipBlanks s') names :=
  (h.dropWhile (by decide)).2

/-- A word in front stays as it is. -/
theorem Renamed.word (h : Renamed s s' names) {w mid : List Char} (hword : word s = (w, mid)) :
    ∃ mid', Text.word s' = (w, mid') ∧ Renamed mid mid' names := by
  obtain ⟨htake, hdrop⟩ := h.dropWhile (show isWord '$' = false by decide)
  obtain ⟨rfl, rfl⟩ := Prod.mk.inj hword
  exact ⟨_, Prod.ext htake rfl, hdrop⟩

theorem Renamed.append_inert {text : List Char} (htext : ∀ c ∈ text, Inert c)
    (h : Renamed s s' names) : Renamed (text ++ s) (text ++ s') names := by
  induction text with
  | nil => exact h
  | cons c text ih =>
    have hc : c ≠ '$' := by
      intro heq
      subst heq
      exact htext '$' List.mem_cons_self (by decide)
    exact .char hc (ih fun x hx => htext x (List.mem_cons_of_mem c hx))

/-- A text of which a character stands in front once it is renamed had the character before. -/
theorem Renamed.cons_of (h : Renamed s (c :: s') names) (hc : c ≠ '$') :
    ∃ t, s = c :: t ∧ Renamed t s' names := by
  obtain ⟨t, rfl⟩ := List.head?_eq_some_iff.mp h.head?.symm
  obtain ⟨t', ht', hmore⟩ := h.cons_inv hc
  obtain rfl := (List.cons.inj ht').2
  exact ⟨t, rfl, hmore⟩

/-- A keyword in front stays as it is. -/
theorem Renamed.keyword? (h : Renamed s s' names) {name : String} {after : List Char}
    (hkey : keyword? s = some (name, after)) :
    ∃ after', Template.keyword? s' = some (name, after') ∧ Renamed after after' names := by
  obtain ⟨w, mid, hword, hw, hequals, hsingle, hname⟩ := keyword?_eq_some_iff.mp hkey
  obtain ⟨mid', hword', hmid⟩ := h.word hword
  have hskip := hmid.skipBlanks
  rw [hequals] at hskip
  obtain ⟨after', hequals', hafter⟩ := hskip.cons_inv (by decide)
  refine ⟨after', keyword?_eq_some_iff.mpr ?_, hafter⟩
  exact ⟨w, mid', hword', hw, hequals', by rwa [hafter.head?], hname⟩

/-- A renamed text has a keyword in front only if there was one. -/
theorem Renamed.keyword?_eq_none (h : Renamed s s' names) (hkey : Template.keyword? s = none) :
    Template.keyword? s' = none := by
  cases hkey' : Template.keyword? s' with
  | none => rfl
  | some r =>
    -- The word, the equals sign and what may double it would stand in the text as well.
    obtain ⟨w, mid', hword', hw, hequals', hsingle', -⟩ := keyword?_eq_some_iff.mp hkey'
    obtain ⟨mid'', hword'', hmid⟩ := h.word rfl
    obtain ⟨rfl, rfl⟩ := Prod.mk.inj (hword'.symm.trans hword'')
    have hskip := hmid.skipBlanks
    rw [hequals'] at hskip
    obtain ⟨after, hequals, hafter⟩ := hskip.cons_of (by decide)
    have hsome := keyword?_eq_some_iff.mpr
      ⟨_, _, rfl, hw, hequals, by rwa [← hafter.head?], rfl⟩
    rw [hkey] at hsome
    cases hsome

/-- The keyword of an argument stays as it is, and so does the lack of one. -/
theorem Renamed.keyword (h : Renamed s s' names) :
    (keyword s').1 = (keyword s).1 ∧ Renamed (keyword s).2 (Template.keyword s').2 names := by
  cases hkey : Template.keyword? s with
  | none =>
    rw [Template.keyword, Template.keyword, hkey, h.keyword?_eq_none hkey]
    exact ⟨rfl, h⟩
  | some r =>
    obtain ⟨after', hkey', hafter⟩ := h.keyword? hkey
    rw [Template.keyword, Template.keyword, hkey, hkey']
    exact ⟨rfl, hafter⟩

/-! ## What stands behind a dollar -/

/-- Two dollars refer to nothing. -/
theorem Refers.ne_dollars {name written rest t : List Char} (h : Refers name written rest) :
    written ++ rest ≠ '$' :: '$' :: t := by
  intro heq
  rcases h.word_or_braced heq with ⟨hword, hname⟩ | ⟨u, hu, -⟩
  · rw [word_cons_of_not (by decide)] at hword
    exact hname (Prod.mk.inj hword).1.symm
  · cases hu

/-- Two dollars stay, and text behind them that means nothing may change. -/
theorem Renamed.dollars_inv {t : List Char} (h : Renamed ('$' :: '$' :: t) s' names) :
    ∃ text text' u u', (∀ c ∈ text, Inert c) ∧ (∀ c ∈ text', Inert c) ∧ t = text ++ u ∧
      s' = '$' :: '$' :: (text' ++ u') ∧ Renamed u u' names := by
  cases h with
  | char ne_dollar => exact absurd rfl ne_dollar
  | dollars inert inert' more eq eq' => exact ⟨_, _, _, _, inert, inert', eq, by rw [eq'], more⟩
  | dollar ne_dollar => exact absurd rfl ne_dollar
  | kept refers _ eq => exact absurd eq.symm refers.ne_dollars
  | renamed refers _ _ eq => exact absurd eq.symm refers.ne_dollars

/-- A reference stays one, to its name or to a new one. -/
theorem Renamed.refers_inv {name written rest : List Char} (h : Renamed s s' names)
    (hrefers : Refers name written rest) (heq : s = written ++ rest) (hname : name ≠ []) :
    ∃ name' written' rest' more, Refers name' written' rest' ∧ name' ≠ [] ∧
      s' = written' ++ rest' ∧ Renamed rest rest' more ∧
      names = (String.ofList name, String.ofList name') :: more := by
  have hhead : s.head? = some '$' := by rw [heq, hrefers.head?]
  cases h with
  | nil => cases hhead
  | char ne_dollar => exact absurd (Option.some.inj hhead) ne_dollar
  | dollars => exact absurd heq.symm hrefers.ne_dollars
  | dollar _ lone => exact absurd hrefers (lone _ _ _ heq.symm)
  | kept refers more eq eq' =>
    obtain ⟨rfl, rfl⟩ := refers.unique hrefers (eq.symm.trans heq)
    exact ⟨_, _, _, _, refers.congr more.head?, hname, eq', more, rfl⟩
  | @renamed _ _ _ _ _ _ new _ refers isName more eq eq' =>
    obtain ⟨rfl, rfl⟩ := refers.unique hrefers (eq.symm.trans heq)
    have hnone : ∀ c ∈ ([] : List Char), isBlank c = true := by simp
    refine ⟨new.toList, _, _, _, .braces hnone isName.2 hnone, ?_, ?_, more, ?_⟩
    · intro hnil
      exact isName.1 (String.toList_inj.mp (hnil.trans rfl))
    · rw [eq']
      simp
    · rw [String.ofList_toList]

/-- A dollar that refers to nothing stays alone. -/
theorem Renamed.lone_inv {t : List Char} (h : Renamed ('$' :: t) s' names)
    (hdollar : t.head? ≠ some '$')
    (hlone : ∀ name written rest, written ++ rest = '$' :: t → ¬Refers name written rest) :
    ∃ t', s' = '$' :: t' ∧ Renamed t t' names := by
  cases h with
  | char ne_dollar => exact absurd rfl ne_dollar
  | dollars => exact absurd rfl hdollar
  | dollar _ _ more => exact ⟨_, rfl, more⟩
  | kept refers _ eq => exact absurd refers (hlone _ _ _ eq.symm)
  | renamed refers _ _ eq => exact absurd refers (hlone _ _ _ eq.symm)

end Renamed

end Casebook.Template
