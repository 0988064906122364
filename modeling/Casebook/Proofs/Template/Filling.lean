import Casebook.Proofs.Template.Cutting

/-!
# Filling in arguments

The scanner that replaces parameters goes by what a text begins with: two dollars, a reference, the
name of a verb that is called, or a character. Each of these has its equation here, so that nothing
else has to look at the scanner. `filled mapping scopes s` is the text that is left when the
parameters in a text are replaced, where the text stands in some scopes.

A text that the scanner copies whatever follows it is `Copies scopes u scopes'`: behind it the
scopes are others.
-/

namespace Casebook.Substitution

open Text Template

section

variable {scopes : List Scope} {s rest : List Char}

/-! ## What the scanner cuts off -/

theorem partsIn_nil : partsIn scopes [] = [] := by
  rw [partsIn.eq_def]

theorem partsIn_dollars :
    partsIn scopes ('$' :: '$' :: s) = .kept ['$', '$'] :: partsIn (begun scopes) s := by
  rw [partsIn.eq_def]
  rfl

/-- A reference is an occurrence. -/
theorem partsIn_refers {name written : List Char} (h : Refers name written rest) :
    partsIn scopes (written ++ rest) =
      .occurrence written (String.ofList name) (inArguments scopes) ::
        partsIn (begun scopes) rest := by
  cases h with
  | plain ne_nil hname ends =>
    obtain ⟨x, more, rfl⟩ := List.exists_cons_of_ne_nil ne_nil
    have hx : isWord x = true := hname x List.mem_cons_self
    have hdollar : x ≠ '$' := by
      rintro rfl
      exact absurd hx (by decide)
    have hbrace : x ≠ '\x7b' := by
      rintro rfl
      exact absurd hx (by decide)
    have hword : word (x :: (more ++ rest)) = (x :: more, rest) := word_append_of_ends hname ends
    show partsIn scopes ('$' :: x :: (more ++ rest)) = _
    rw [partsIn.eq_def]
    simp only [if_true, if_neg hdollar, if_neg hbrace, hx, hword]
  | @braces before after _ hbefore hname hafter =>
    have hbraced := braced_append rest hbefore hname hafter
    have heq : '$' :: '\x7b' :: (before ++ (name ++ (after ++ ['\x7d']))) ++ rest =
        '$' :: '\x7b' :: (before ++ (name ++ (after ++ '\x7d' :: rest))) := by simp
    rw [heq, partsIn.eq_def]
    simp only [if_true]
    rw [if_neg (by decide)]
    split
    · next name' r h =>
      rw [hbraced] at h
      obtain ⟨rfl, rfl⟩ := Braced.name.inj h
      rw [← heq, upTo_append]
    · next h =>
      rw [hbraced] at h
      cases h
    · next h =>
      rw [hbraced] at h
      cases h

/-- The name of a verb stays, and what follows the parenthesis is in its argument list. -/
theorem partsIn_call {before name after : List Char} (hbefore : ∀ c ∈ before, isBlank c = true)
    (hname : ∀ c ∈ name, isWord c = true) (ne_nil : name ≠ [])
    (hafter : ∀ c ∈ after, isBlank c = true) :
    partsIn scopes ('$' :: '\x7b' :: (before ++ (name ++ (after ++ '(' :: rest)))) =
      .kept ('$' :: '\x7b' :: (before ++ (name ++ (after ++ ['('])))) ::
        partsIn (.arguments true :: begun scopes) rest := by
  obtain ⟨mid, hword, hskip⟩ := exists_word_skipBlanks rest hbefore hname hafter
    (by decide : isWord '(' = false) (by decide)
  have hbraced : braced (before ++ (name ++ (after ++ '(' :: rest))) = .call rest := by
    simp only [braced, hword, hskip, if_neg ne_nil]
  have heq : '$' :: '\x7b' :: (before ++ (name ++ (after ++ '(' :: rest))) =
      '$' :: '\x7b' :: (before ++ (name ++ (after ++ ['(']))) ++ rest := by simp
  rw [partsIn.eq_def]
  simp only [if_true]
  rw [if_neg (by decide)]
  split
  · next h =>
    rw [hbraced] at h
    cases h
  · next r h =>
    rw [hbraced] at h
    obtain rfl := Braced.call.inj h
    rw [heq, upTo_append]
  · next h =>
    rw [hbraced] at h
    cases h

/-- A dollar in front of what begins no reference stays alone. -/
theorem partsIn_lone
    (hlone : ∀ x, s.head? = some x → x ≠ '$' ∧ x ≠ '\x7b' ∧ isWord x = false) :
    partsIn scopes ('$' :: s) = .kept ['$'] :: partsIn (begun scopes) s := by
  rw [partsIn.eq_def]
  cases s with
  | nil =>
    rw [partsIn_nil]
    rfl
  | cons x s =>
    obtain ⟨hdollar, hbrace, hword⟩ := hlone x rfl
    simp only [if_true, if_neg hdollar, if_neg hbrace, hword, Bool.false_eq_true, if_false]

/-- Between quotes a backslash and the character behind it stay. -/
theorem partsIn_escaped {q x : Char} :
    partsIn (.quoted q :: scopes) ('\\' :: x :: s) =
      .kept ['\\', x] :: partsIn (.quoted q :: scopes) s := by
  rw [partsIn.eq_def]
  rfl

theorem partsIn_char {c : Char} (hdollar : c ≠ '$') (hescape : c = '\\' → escapes scopes = false) :
    partsIn scopes (c :: s) = .kept [c] :: partsIn (afterChar c scopes) s := by
  have hkept : ¬(c = '\\' ∧ escapes scopes = true) := by
    rintro ⟨hc, hescapes⟩
    rw [hescape hc] at hescapes
    cases hescapes
  rw [partsIn.eq_def]
  simp only [if_neg hdollar, if_neg hkept]

/-! ## What is left when parameters are replaced -/

/-- A text that stands in some scopes, with its parameters replaced. -/
def filled (mapping : Dict Substitution) (scopes : List Scope) (s : List Char) : List Char :=
  (partsIn scopes s).flatMap (Part.replace mapping)

variable {mapping : Dict Substitution}

theorem filled_nil : filled mapping scopes [] = [] := by
  rw [filled, partsIn_nil, List.flatMap_nil]

theorem filled_dollars :
    filled mapping scopes ('$' :: '$' :: s) = '$' :: '$' :: filled mapping (begun scopes) s := by
  rw [filled, partsIn_dollars]
  rfl

/-- A reference is replaced, or stays as it is written. -/
theorem filled_refers {name written : List Char} (h : Refers name written rest) :
    filled mapping scopes (written ++ rest) =
      (Part.occurrence written (String.ofList name) (inArguments scopes)).replace mapping ++
        filled mapping (begun scopes) rest := by
  rw [filled, partsIn_refers h]
  rfl

theorem filled_lone
    (hlone : ∀ x, s.head? = some x → x ≠ '$' ∧ x ≠ '\x7b' ∧ isWord x = false) :
    filled mapping scopes ('$' :: s) = '$' :: filled mapping (begun scopes) s := by
  rw [filled, partsIn_lone hlone]
  rfl

theorem filled_escaped {q x : Char} :
    filled mapping (.quoted q :: scopes) ('\\' :: x :: s) =
      '\\' :: x :: filled mapping (.quoted q :: scopes) s := by
  rw [filled, partsIn_escaped]
  rfl

theorem filled_char {c : Char} (hdollar : c ≠ '$') (hescape : c = '\\' → escapes scopes = false) :
    filled mapping scopes (c :: s) = c :: filled mapping (afterChar c scopes) s := by
  rw [filled, partsIn_char hdollar hescape]
  rfl

/-! ## Text that is copied -/

/-- A text is copied in some scopes, whatever follows it, and what follows stands in others. -/
def Copies (scopes : List Scope) (u : List Char) (scopes' : List Scope) : Prop :=
  ∀ s, ∃ kept : List (List Char),
    partsIn scopes (u ++ s) = kept.map .kept ++ partsIn scopes' s ∧ kept.flatten = u

theorem copies_nil (scopes : List Scope) : Copies scopes [] scopes :=
  fun _ => ⟨[], rfl, rfl⟩

theorem Copies.append {scopes' scopes'' : List Scope} {u v : List Char}
    (h : Copies scopes u scopes') (h' : Copies scopes' v scopes'') :
    Copies scopes (u ++ v) scopes'' := by
  intro s
  obtain ⟨kept, hparts, hkept⟩ := h (v ++ s)
  obtain ⟨kept', hparts', hkept'⟩ := h' s
  refine ⟨kept ++ kept', ?_, by rw [List.flatten_append, hkept, hkept']⟩
  rw [List.append_assoc, hparts, hparts', List.map_append, List.append_assoc]

theorem copies_char (scopes : List Scope) {c : Char} (hdollar : c ≠ '$')
    (hescape : c = '\\' → escapes scopes = false) :
    Copies scopes [c] (afterChar c scopes) :=
  fun _ => ⟨[[c]], partsIn_char hdollar hescape, rfl⟩

/-- A run of characters behind which the scopes are the same is copied. -/
theorem copies_run {u : List Char} (h : ∀ c ∈ u, Copies scopes [c] scopes) :
    Copies scopes u scopes := by
  induction u with
  | nil => exact copies_nil scopes
  | cons c u ih =>
    exact (h c List.mem_cons_self).append (ih fun x hx => h x (List.mem_cons_of_mem c hx))

theorem copies_call {before name after : List Char} (hbefore : ∀ c ∈ before, isBlank c = true)
    (hname : ∀ c ∈ name, isWord c = true) (ne_nil : name ≠ [])
    (hafter : ∀ c ∈ after, isBlank c = true) :
    Copies scopes ('$' :: '\x7b' :: (before ++ (name ++ (after ++ ['(']))))
      (.arguments true :: begun scopes) := by
  intro s
  refine ⟨['$' :: '\x7b' :: (before ++ (name ++ (after ++ ['('])))], ?_, by simp⟩
  rw [List.map_singleton, List.singleton_append, ← partsIn_call hbefore hname ne_nil hafter]
  simp

theorem Copies.filled (mapping : Dict Substitution) {scopes' : List Scope} {u : List Char}
    (h : Copies scopes u scopes') (s : List Char) :
    filled mapping scopes (u ++ s) = u ++ Substitution.filled mapping scopes' s := by
  obtain ⟨kept, hparts, hkept⟩ := h s
  have hreplace : (kept.map Part.kept).flatMap (Part.replace mapping) = kept.flatten := by
    rw [List.flatMap_map]
    exact List.flatMap_id
  rw [Substitution.filled, hparts, List.flatMap_append, hreplace, hkept]
  rfl

/-- The name of a verb stays, and what follows the parenthesis is in its argument list. -/
theorem filled_call (mapping : Dict Substitution) (scopes : List Scope)
    {before name after : List Char} (hbefore : ∀ c ∈ before, isBlank c = true)
    (hname : ∀ c ∈ name, isWord c = true) (ne_nil : name ≠ [])
    (hafter : ∀ c ∈ after, isBlank c = true) (rest : List Char) :
    filled mapping scopes ('$' :: '\x7b' :: (before ++ (name ++ (after ++ '(' :: rest)))) =
      '$' :: '\x7b' :: (before ++ (name ++ (after ++ '(' ::
        filled mapping (.arguments true :: begun scopes) rest))) := by
  have hcopied : Copies scopes _ _ := copies_call hbefore hname ne_nil hafter
  have hfilled := hcopied.filled mapping rest
  simpa using hfilled

/-! ## Scopes of what is copied -/

/-- Strings stand between quotes. -/
def Delimited (scopes : List Scope) : Prop :=
  ∀ q outer, scopes = .quoted q :: outer → q = '"' ∨ q = '\''

theorem delimited_arguments (b : Bool) (outer : List Scope) :
    Delimited (.arguments b :: outer) :=
  nofun

theorem delimited_quoted {q : Char} (hq : q = '"' ∨ q = '\'') (outer : List Scope) :
    Delimited (.quoted q :: outer) := by
  intro x outer' heq
  obtain rfl := Scope.quoted.inj (List.cons.inj heq).1
  exact hq

theorem Delimited.begun (h : Delimited scopes) : Delimited (begun scopes) := by
  cases scopes with
  | nil => exact h
  | cons scope outer =>
    cases scope with
    | arguments => exact delimited_arguments false outer
    | quoted => exact h

/-- A character of an argument that ends nothing and opens no string. -/
theorem afterChar_arguments {c : Char} {b : Bool} (hends : Stop.argument.endsAt c = false)
    (hquote : (b && (c = '"' || c = '\'')) = false) (outer : List Scope) :
    afterChar c (.arguments b :: outer) = .arguments (c = '=' || (b && isBlank c)) :: outer := by
  have hne : c ≠ ',' ∧ c ≠ ')' := by simpa [Stop.endsAt] using hends
  have hstring : ¬((c = '"' ∨ c = '\'') ∧ b = true) := by
    rintro ⟨hc, rfl⟩
    rcases hc with rfl | rfl <;> exact absurd hquote (by decide)
  rw [afterChar, if_neg hne.2, if_neg hstring]
  by_cases hequals : c = '='
  · rw [if_pos (.inr hequals)]
    simp [hequals]
  · rw [if_neg (not_or.mpr ⟨hne.1, hequals⟩)]
    by_cases hblank : isBlank c = true
    · rw [if_pos hblank]
      simp [hequals, hblank]
    · rw [if_neg hblank]
      simp [hequals, hblank]

/-- Blanks are copied wherever they stand. -/
theorem copies_blanks (hscopes : Delimited scopes) {blanks : List Char}
    (hblanks : ∀ c ∈ blanks, isBlank c = true) : Copies scopes blanks scopes := by
  refine copies_run fun c hc => ?_
  have hblank := hblanks c hc
  have hne {x : Char} (hx : isBlank x = false) : c ≠ x := by
    rintro rfl
    rw [hx] at hblank
    cases hblank
  have hbackslash : c = '\\' → escapes scopes = false := fun h => absurd h (hne (by decide))
  have hcopied := copies_char scopes (hne (by decide)) hbackslash
  have hsame : afterChar c scopes = scopes := by
    cases scopes with
    | nil => rfl
    | cons scope outer =>
      cases scope with
      | arguments b =>
        have hdouble : c ≠ '"' := hne (by decide)
        have hsingle : c ≠ '\'' := hne (by decide)
        have hequals : c ≠ '=' := hne (by decide)
        rw [afterChar_arguments (isUsual_argument.inert (inert_of_isBlank hblank))
          (by simp [hdouble, hsingle])]
        simp [hequals, hblank]
      | quoted q =>
        have hq : c ≠ q := by
          rcases hscopes q outer rfl with rfl | rfl
          · exact hne (by decide)
          · exact hne (by decide)
        rw [afterChar, if_neg hq]
  rwa [hsame] at hcopied

/-- A closing brace is copied. -/
theorem copies_brace (hscopes : Delimited scopes) :
    Copies (begun scopes) ['\x7d'] (begun scopes) := by
  have hcopied := copies_char (begun scopes) (by decide : '\x7d' ≠ '$') nofun
  have hsame : afterChar '\x7d' (begun scopes) = begun scopes := by
    cases scopes with
    | nil => rfl
    | cons scope outer =>
      cases scope with
      | arguments => rfl
      | quoted q => rcases hscopes q outer rfl with rfl | rfl <;> rfl
  rwa [hsame] at hcopied

/-- A word in an argument is copied, and a quote behind it opens no string. -/
theorem copies_word {w : List Char} (ne_nil : w ≠ []) (hw : ∀ c ∈ w, isWord c = true) (b : Bool)
    (outer : List Scope) : Copies (.arguments b :: outer) w (.arguments false :: outer) := by
  have hcopies (b : Bool) {c : Char} (hc : isWord c = true) :
      Copies (.arguments b :: outer) [c] (.arguments false :: outer) := by
    have hne {x : Char} (hx : isWord x = false) : c ≠ x := by
      rintro rfl
      rw [hx] at hc
      cases hc
    have hcopied := copies_char (.arguments b :: outer) (hne (by decide)) fun _ => rfl
    have hquote : (b && (c = '"' || c = '\'')) = false := by
      simp [hne (by decide : isWord '"' = false), hne (by decide : isWord '\'' = false)]
    rw [afterChar_arguments (isUsual_argument.inert (inert_of_isWord hc)) hquote] at hcopied
    simpa [hne (by decide : isWord '=' = false), isBlank_eq_false_of_isWord hc] using hcopied
  obtain ⟨c, w, rfl⟩ := List.exists_cons_of_ne_nil ne_nil
  have hfirst := hcopies b (hw c List.mem_cons_self)
  exact hfirst.append (copies_run fun x hx => hcopies false (hw x (List.mem_cons_of_mem c hx)))

/-- A keyword is copied, and a quote behind it opens a string. -/
theorem copies_keyword {w blanks behind : List Char} (hw : w ≠ [])
    (hisWord : ∀ x ∈ w, isWord x = true) (hblanks : ∀ x ∈ blanks, isBlank x = true)
    (hbehind : ∀ x ∈ behind, isBlank x = true) (outer : List Scope) :
    Copies (.arguments true :: outer) (w ++ (blanks ++ (['='] ++ behind)))
      (.arguments true :: outer) := by
  have hequals : Copies (.arguments false :: outer) ['='] (.arguments true :: outer) :=
    copies_char _ (by decide) fun _ => rfl
  have hvalue := hequals.append (copies_blanks (delimited_arguments true outer) hbehind)
  have hsign := (copies_blanks (delimited_arguments false outer) hblanks).append hvalue
  exact (copies_word hw hisWord true outer).append hsign

/-- A quote where an argument begins is copied and opens a string. -/
theorem copies_opening {q : Char} (hq : q = '"' ∨ q = '\'') (outer : List Scope) :
    Copies (.arguments true :: outer) [q] (.quoted q :: .arguments false :: outer) := by
  rcases hq with rfl | rfl
  · exact copies_char _ (by decide) fun _ => rfl
  · exact copies_char _ (by decide) fun _ => rfl

/-- A character between quotes that is none of them is copied. -/
theorem copies_between {q c : Char} (hdollar : c ≠ '$') (hbackslash : c ≠ '\\') (hq : c ≠ q)
    (outer : List Scope) : Copies (.quoted q :: outer) [c] (.quoted q :: outer) := by
  have hcopied := copies_char (.quoted q :: outer) hdollar fun h => absurd h hbackslash
  rwa [afterChar, if_neg hq] at hcopied

/-- The closing quote is copied. -/
theorem copies_closing {q : Char} (hq : q = '"' ∨ q = '\'') (outer : List Scope) :
    Copies (.quoted q :: outer) [q] outer := by
  have hne : q ≠ '$' ∧ q ≠ '\\' := by rcases hq with rfl | rfl <;> decide
  have hcopied := copies_char (.quoted q :: outer) hne.1 fun h => absurd h hne.2
  rwa [afterChar, if_pos rfl] at hcopied

/-- What ends an argument is copied, with the blanks in front of it. -/
theorem copies_closes {c : Char} (hc : c = ',' ∨ c = ')') {blanks : List Char}
    (hblanks : ∀ x ∈ blanks, isBlank x = true) (b : Bool) (outer : List Scope) :
    Copies (.arguments b :: outer) (blanks ++ [c]) (afterChar c (.arguments true :: outer)) := by
  refine (copies_blanks (delimited_arguments b outer) hblanks).append ?_
  rcases hc with rfl | rfl
  · exact copies_char _ (by decide) fun _ => rfl
  · exact copies_char _ (by decide) fun _ => rfl

theorem filled_end {c : Char} (hc : c = ',' ∨ c = ')') {blanks : List Char}
    (hblanks : ∀ x ∈ blanks, isBlank x = true) (b : Bool) (outer : List Scope) (rest : List Char) :
    filled mapping (.arguments b :: outer) (blanks ++ c :: rest) =
      blanks ++ c :: filled mapping (afterChar c (.arguments true :: outer)) rest := by
  have hfilled := (copies_closes hc hblanks b outer).filled mapping rest
  simpa using hfilled

end

/-! ## Whole texts -/

/-- A text that begins like a call in its bare form is cut in the argument list of the call. -/
theorem parts_of_call {before name after rest : List Char}
    (hbefore : ∀ c ∈ before, isBlank c = true) (hname : ∀ c ∈ name, isWord c = true)
    (ne_nil : name ≠ []) (hafter : ∀ c ∈ after, isBlank c = true) :
    parts (before ++ (name ++ (after ++ '(' :: rest))) =
      .kept (before ++ (name ++ (after ++ ['(']))) :: partsIn [.arguments true] rest := by
  obtain ⟨mid, hword, hskip⟩ := exists_word_skipBlanks rest hbefore hname hafter
    (by decide : isWord '(' = false) (by decide)
  obtain ⟨x, name, rfl⟩ := List.exists_cons_of_ne_nil ne_nil
  have hcall : bareCall? (before ++ (x :: name ++ (after ++ '(' :: rest))) = some rest := by
    unfold bareCall?
    rw [hword]
    simp only [hskip]
  have heq : before ++ (x :: name ++ (after ++ '(' :: rest)) =
      before ++ (x :: name ++ (after ++ ['('])) ++ rest := by simp
  rw [parts, hcall]
  simp only
  rw [heq, upTo_append]

theorem toList_apply_of_call (mapping : Dict Substitution) {text : String}
    {before name after rest : List Char} (hbefore : ∀ c ∈ before, isBlank c = true)
    (hname : ∀ c ∈ name, isWord c = true) (ne_nil : name ≠ [])
    (hafter : ∀ c ∈ after, isBlank c = true)
    (htext : text.toList = before ++ (name ++ (after ++ '(' :: rest))) :
    (apply mapping text).toList =
      before ++ (name ++ (after ++ '(' :: filled mapping [.arguments true] rest)) := by
  have heq (t : List Char) : before ++ (name ++ (after ++ '(' :: t)) =
      before ++ (name ++ (after ++ ['('])) ++ t := by simp
  rw [apply, String.toList_ofList, htext, parts_of_call hbefore hname ne_nil hafter,
    List.flatMap_cons, heq (filled mapping [.arguments true] rest)]
  rfl

/-- Any other text is filled outside of all calls. -/
theorem toList_apply_of_not_call (mapping : Dict Substitution) {text : String}
    (h : bareCall? text.toList = none) :
    (apply mapping text).toList = filled mapping [] text.toList := by
  rw [apply, String.toList_ofList, parts, h]
  rfl

end Casebook.Substitution
