import Casebook.Proofs.Template.Extent
import Casebook.Proofs.Template.Hidden

/-!
# Words for parameters

`Worded words s s'` says that one text becomes another when each parameter that has a word becomes
it, while every other reference stays one to its name. Words and what is left behind them stand side
by side, so a reference without braces stays what it is only if no word is put right behind it: the
two would be read as one name. `Apart` says of a text that this does not happen.

The texts here have neither quotes nor backslashes.
-/

namespace Casebook.Substitution

open Text Template

/-- The characters that make a text more than its references and what stands between them. -/
def markers : List Char :=
  ['$', '\\', '"', '\'']

/-- Every word is a name. -/
def AllNames (words : Dict String) : Prop :=
  ∀ p w, words.get? p = some w → IsName w

/-- A text becomes another when each reference to a name that has a word becomes the word. -/
inductive Worded (words : Dict String) : List Char → List Char → Prop where
  | nil : Worded words [] []
  | char {c : Char} {s s' : List Char} (plain : c ∉ markers) (more : Worded words s s') :
      Worded words (c :: s) (c :: s')
  | dollars {s s' : List Char} (more : Worded words s s') :
      Worded words ('$' :: '$' :: s) ('$' :: '$' :: s')
  /-- A dollar that refers to nothing. -/
  | dollar {s s' : List Char} (ne_dollar : s.head? ≠ some '$')
      (lone : ∀ name written rest, written ++ rest = '$' :: s → ¬Refers name written rest)
      (more : Worded words s s') : Worded words ('$' :: s) ('$' :: s')
  | kept {name written s s' t t' : List Char} (unbound : words.get? (String.ofList name) = none)
      (refers : Refers name written s) (refers' : Refers name written s')
      (more : Worded words s s') (eq : t = written ++ s) (eq' : t' = written ++ s') :
      Worded words t t'
  | replaced {name written s s' t t' : List Char} {word : String}
      (bound : words.get? (String.ofList name) = some word) (refers : Refers name written s)
      (more : Worded words s s') (eq : t = written ++ s) (eq' : t' = word.toList ++ s') :
      Worded words t t'

section

variable {words : Dict String} {s s' t rest : List Char} {c : Char}

/-! ## What a text becomes -/

theorem not_mem_markers_of_inert (hc : Inert c) : c ∉ markers := by
  have hspecial : ∀ x ∈ markers, x ∈ specialChars := by simp [markers, specialChars]
  exact fun hmem => hc (hspecial c hmem)

theorem Worded.nil_inv (h : Worded words [] s') : s' = [] := by
  have hdollar (hhead : ([] : List Char).head? = some '$') : False := by cases hhead
  cases h with
  | nil => rfl
  | kept _ refers _ _ eq => exact (hdollar (by rw [eq, refers.head?])).elim
  | replaced _ refers _ eq => exact (hdollar (by rw [eq, refers.head?])).elim

theorem Worded.cons_inv (h : Worded words (c :: s) s') (hc : c ≠ '$') :
    c ∉ markers ∧ ∃ t', s' = c :: t' ∧ Worded words s t' := by
  have hdollar (hhead : (c :: s).head? = some '$') : False := hc (by simpa using hhead)
  cases h with
  | char plain more => exact ⟨plain, _, rfl, more⟩
  | dollars => exact absurd rfl hc
  | dollar => exact absurd rfl hc
  | kept _ refers _ _ eq => exact (hdollar (by rw [eq, refers.head?])).elim
  | replaced _ refers _ eq => exact (hdollar (by rw [eq, refers.head?])).elim

theorem Worded.dollars_inv (h : Worded words ('$' :: '$' :: s) s') :
    ∃ t', s' = '$' :: '$' :: t' ∧ Worded words s t' := by
  cases h with
  | char plain => exact absurd List.mem_cons_self plain
  | dollars more => exact ⟨_, rfl, more⟩
  | dollar ne_dollar => exact absurd rfl ne_dollar
  | kept _ refers _ _ eq => exact absurd eq.symm refers.ne_dollars
  | replaced _ refers _ eq => exact absurd eq.symm refers.ne_dollars

/-- A dollar that refers to nothing stays. -/
theorem Worded.lone_inv (h : Worded words ('$' :: s) s') (hdollar : s.head? ≠ some '$')
    (hlone : ∀ name written rest, written ++ rest = '$' :: s → ¬Refers name written rest) :
    ∃ t', s' = '$' :: t' ∧ Worded words s t' := by
  cases h with
  | char plain => exact absurd List.mem_cons_self plain
  | dollars => exact absurd rfl hdollar
  | dollar _ _ more => exact ⟨_, rfl, more⟩
  | kept _ refers _ _ eq => exact absurd refers (hlone _ _ _ eq.symm)
  | replaced _ refers _ eq => exact absurd refers (hlone _ _ _ eq.symm)

/-- A reference stays one to its name, or becomes the word for it. -/
theorem Worded.refers_inv {name written : List Char} (h : Worded words (written ++ rest) s')
    (hrefers : Refers name written rest) :
    (words.get? (String.ofList name) = none ∧
      ∃ rest', s' = written ++ rest' ∧ Refers name written rest' ∧ Worded words rest rest') ∨
    ∃ word rest', words.get? (String.ofList name) = some word ∧ s' = word.toList ++ rest' ∧
      Worded words rest rest' := by
  generalize ht : written ++ rest = t at h
  have hhead : t.head? = some '$' := by rw [← ht, hrefers.head?]
  cases h with
  | nil => cases hhead
  | char plain =>
    rw [Option.some.inj hhead] at plain
    exact absurd List.mem_cons_self plain
  | dollars => exact absurd ht hrefers.ne_dollars
  | dollar _ lone => exact absurd hrefers (lone _ _ _ ht)
  | kept unbound refers refers' more eq eq' =>
    have hsame := eq.symm.trans ht.symm
    obtain ⟨rfl, rfl⟩ := refers.unique hrefers hsame
    obtain rfl := List.append_cancel_right hsame
    exact .inl ⟨unbound, _, eq', refers', more⟩
  | replaced bound refers more eq eq' =>
    obtain ⟨rfl, rfl⟩ := refers.unique hrefers (eq.symm.trans ht.symm)
    exact .inr ⟨_, _, bound, eq', more⟩

theorem Worded.of_append_inert {text : List Char} (htext : ∀ c ∈ text, Inert c)
    (h : Worded words (text ++ s) s') : ∃ t', s' = text ++ t' ∧ Worded words s t' := by
  induction text generalizing s' with
  | nil => exact ⟨s', rfl, h⟩
  | cons c text ih =>
    have hc : c ≠ '$' := fun heq => htext c List.mem_cons_self (heq ▸ by decide)
    obtain ⟨-, u', rfl, hu⟩ := h.cons_inv hc
    obtain ⟨t', rfl, ht⟩ := ih (fun x hx => htext x (List.mem_cons_of_mem c hx)) hu
    exact ⟨t', rfl, ht⟩

/-- A text begins with the same character, or with a word in place of a dollar. -/
theorem Worded.head?_or (hwords : AllNames words) (h : Worded words s s') :
    s'.head? = s.head? ∨ s.head? = some '$' ∧ ∃ x, s'.head? = some x ∧ isWord x = true := by
  cases h with
  | nil => exact .inl rfl
  | char => exact .inl rfl
  | dollars => exact .inl rfl
  | dollar => exact .inl rfl
  | kept _ refers _ _ eq eq' => exact .inl (by rw [eq, eq', refers.head?, refers.head?])
  | @replaced _ _ _ _ _ _ word bound refers _ eq eq' =>
    have hname := hwords _ _ bound
    obtain ⟨x, more, hcons⟩ := List.exists_cons_of_ne_nil fun hnil : word.toList = [] =>
      hname.1 (String.toList_inj.mp (hnil.trans rfl))
    refine .inr ⟨by rw [eq, refers.head?], x, by rw [eq', hcons]; rfl, hname.2 x ?_⟩
    rw [hcons]
    exact List.mem_cons_self

/-- Nothing but dollars makes the text that a text becomes more than its references. -/
theorem Worded.not_mem_markers (hwords : AllNames words) (h : Worded words s s') :
    ∀ x ∈ s', x ≠ '$' → x ∉ markers := by
  have hwritten {name written rest : List Char} (hrefers : Refers name written rest) :
      ∀ x ∈ written, x ≠ '$' → x ∉ markers := by
    obtain ⟨text, rfl, -, hinert⟩ := hrefers.exists_inert
    intro x hx hdollar
    rcases List.mem_cons.mp hx with heq | hx
    · exact absurd heq hdollar
    · exact not_mem_markers_of_inert (hinert x hx)
  induction h with
  | nil => simp
  | char plain _ ih =>
    intro x hx hdollar
    rcases List.mem_cons.mp hx with rfl | hx
    · exact plain
    · exact ih x hx hdollar
  | dollars _ ih =>
    intro x hx hdollar
    rcases List.mem_cons.mp hx with heq | hx
    · exact absurd heq hdollar
    rcases List.mem_cons.mp hx with heq | hx
    · exact absurd heq hdollar
    · exact ih x hx hdollar
  | dollar _ _ _ ih =>
    intro x hx hdollar
    rcases List.mem_cons.mp hx with heq | hx
    · exact absurd heq hdollar
    · exact ih x hx hdollar
  | kept _ refers _ _ _ eq' ih =>
    subst eq'
    intro x hx hdollar
    rcases List.mem_append.mp hx with hx | hx
    · exact hwritten refers x hx hdollar
    · exact ih x hx hdollar
  | replaced bound _ _ _ eq' ih =>
    subst eq'
    intro x hx hdollar
    rcases List.mem_append.mp hx with hx | hx
    · exact not_mem_markers_of_inert (inert_of_isWord ((hwords _ _ bound).2 x hx))
    · exact ih x hx hdollar

theorem Worded.skipBlanks (hwords : AllNames words) (h : Worded words s s') :
    Worded words (skipBlanks s) (skipBlanks s') := by
  induction s generalizing s' with
  | nil =>
    obtain rfl := h.nil_inv
    exact .nil
  | cons c s ih =>
    by_cases hc : isBlank c = true
    · have hdollar : c ≠ '$' := fun heq => absurd (heq ▸ hc) (by decide)
      obtain ⟨-, t', rfl, ht⟩ := h.cons_inv hdollar
      have hskip (u : List Char) : Text.skipBlanks (c :: u) = Text.skipBlanks u :=
        List.dropWhile_cons_of_pos hc
      rw [hskip, hskip]
      exact ih ht
    · have hends : Ends isBlank s' := by
        intro x hx
        rcases h.head?_or hwords with hhead | ⟨-, y, hy, hword⟩
        · rw [hhead] at hx
          rw [← Option.some.inj hx]
          simpa using hc
        · rw [hy] at hx
          rw [← Option.some.inj hx]
          exact isBlank_eq_false_of_isWord hword
      have hskip : Text.skipBlanks (c :: s) = c :: s := List.dropWhile_cons_of_neg hc
      rw [hskip, skipBlanks_of_ends hends]
      exact h

/-! ## A text in front of another -/

theorem refers_of_append {name written : List Char} (h : Refers name written (s ++ t)) :
    Refers name written s := by
  cases h with
  | braces hbefore hname hafter => exact .braces hbefore hname hafter
  | plain ne_nil hname ends =>
    refine .plain ne_nil hname fun x hx => ends x ?_
    obtain ⟨u, rfl⟩ := List.head?_eq_some_iff.mp hx
    rfl

theorem refers_append {name written : List Char} (h : Refers name written s)
    (ht : Ends isWord t) : Refers name written (s ++ t) := by
  cases h with
  | braces hbefore hname hafter => exact .braces hbefore hname hafter
  | plain ne_nil hname ends =>
    refine .plain ne_nil hname ?_
    cases s with
    | nil => exact ht
    | cons x s => exact ends_cons.mpr (ends_cons.mp ends)

/-- A reference ends in no blank. -/
theorem exists_last_of_refers {name written : List Char} (h : Refers name written rest) :
    ∃ init x, written = init ++ [x] ∧ isBlank x = false := by
  cases h with
  | plain ne_nil hname =>
    obtain ⟨init, x, rfl⟩ : ∃ init x, name = init ++ [x] :=
      ⟨_, _, (List.dropLast_concat_getLast ne_nil).symm⟩
    exact ⟨'$' :: init, x, rfl, isBlank_eq_false_of_isWord (hname x (by simp))⟩
  | @braces before after =>
    exact ⟨'$' :: '\x7b' :: (before ++ (name ++ after)), '\x7d', by simp, by decide⟩

/-- A text that no reference in front of it reaches into. -/
structure Separate (t : List Char) : Prop where
  head?_ne : t.head? ≠ some '$'
  ends : Ends isWord t
  refers {name written rest u : List Char} (h : Refers name written rest)
    (heq : written ++ rest = u ++ t) : ∃ v, u = written ++ v ∧ rest = v ++ t

/-- Nothing reaches over the blanks in front of what ends an argument. -/
theorem separate_of_closes (hc : c = ',' ∨ c = ')') {blanks : List Char}
    (hblanks : ∀ x ∈ blanks, isBlank x = true) (rest : List Char) :
    Separate (blanks ++ c :: rest) := by
  have hdetached := detached_append hblanks (detached_of_closes hc rest)
  refine ⟨fun hhead => (hdetached _ hhead).1 rfl, fun x hx => (hdetached x hx).2.2, ?_⟩
  intro name written rest' u h heq
  rcases List.append_eq_append_iff.mp heq with ⟨v, hu, hrest⟩ | ⟨w, hwritten, ht⟩
  · exact ⟨v, hu, hrest⟩
  -- Of what would reach over, the last character is a blank, or one of them is what ends.
  obtain ⟨init, x, hlast, hx⟩ := exists_last_of_refers h
  obtain ⟨text, htext, -, hinert⟩ := h.exists_inert
  have hc' : c ∉ written := by
    rw [htext, List.mem_cons, not_or]
    refine ⟨by rcases hc with rfl | rfl <;> decide, fun hmem => hinert c hmem ?_⟩
    rcases hc with rfl | rfl <;> decide
  have hnil : w = [] := by
    by_contra hw
    obtain ⟨w, y, rfl⟩ : ∃ init y, w = init ++ [y] :=
      ⟨_, _, (List.dropLast_concat_getLast hw).symm⟩
    have hlast' : init ++ [x] = (u ++ w) ++ [y] := by rw [← hlast, hwritten, List.append_assoc]
    obtain rfl : x = y := by simpa using (List.append_inj' hlast' rfl).2
    have hmem : x ∈ blanks := by
      rcases List.append_eq_append_iff.mp ht with ⟨v, hv, hrest⟩ | ⟨v, hv, hrest⟩
      · cases v with
        | nil =>
          rw [List.append_nil] at hv
          rw [← hv]
          simp
        | cons z v =>
          obtain rfl : c = z := (List.cons.inj hrest).1
          have hmem : c ∈ w ++ [x] := by
            rw [hv]
            simp
          exact absurd (hwritten ▸ List.mem_append_right u hmem) hc'
      · rw [hv]
        simp
    rw [hblanks x hmem] at hx
    cases hx
  subst hnil
  exact ⟨[], by simpa using hwritten.symm, by simpa using ht.symm⟩

/-- The text in front of one that nothing reaches into becomes another on its own. -/
theorem Worded.append_inv {u : List Char} (ht : Separate t) (h : Worded words (u ++ t) s') :
    ∃ u' t', s' = u' ++ t' ∧ Worded words u u' ∧ Worded words t t' := by
  generalize hs : u ++ t = s at h
  induction h generalizing u with
  | nil =>
    obtain ⟨rfl, rfl⟩ := List.append_eq_nil_iff.mp hs
    exact ⟨[], [], rfl, .nil, .nil⟩
  | char plain more ih =>
    cases u with
    | nil =>
      obtain rfl : t = _ := hs
      exact ⟨[], _, rfl, .nil, .char plain more⟩
    | cons x u =>
      obtain ⟨rfl, hmore⟩ := List.cons.inj hs
      obtain ⟨u', t', rfl, hu, ht'⟩ := ih hmore
      exact ⟨_ :: u', t', rfl, .char plain hu, ht'⟩
  | dollars more ih =>
    cases u with
    | nil =>
      obtain rfl : t = _ := hs
      exact ⟨[], _, rfl, .nil, .dollars more⟩
    | cons x u =>
      obtain ⟨rfl, hmore⟩ := List.cons.inj hs
      cases u with
      | nil => exact absurd (congrArg List.head? hmore) ht.head?_ne
      | cons y u =>
        obtain ⟨rfl, hmore'⟩ := List.cons.inj hmore
        obtain ⟨u', t', rfl, hu, ht'⟩ := ih hmore'
        exact ⟨'$' :: '$' :: u', t', rfl, .dollars hu, ht'⟩
  | dollar ne_dollar lone more ih =>
    cases u with
    | nil =>
      obtain rfl : t = _ := hs
      exact ⟨[], _, rfl, .nil, .dollar ne_dollar lone more⟩
    | cons x u =>
      obtain ⟨rfl, rfl⟩ := List.cons.inj hs
      obtain ⟨u', t', rfl, hu, ht'⟩ := ih rfl
      refine ⟨'$' :: u', t', rfl, .dollar ?_ ?_ hu, ht'⟩
      · intro hhead
        obtain ⟨v, rfl⟩ := List.head?_eq_some_iff.mp hhead
        exact ne_dollar rfl
      · intro name written rest heq hrefers
        refine lone name written (rest ++ t) ?_ (refers_append hrefers ht.ends)
        rw [← List.append_assoc, heq]
        rfl
  | kept unbound refers refers' more eq eq' ih =>
    subst eq eq'
    obtain ⟨v, rfl, rfl⟩ := ht.refers refers hs.symm
    obtain ⟨v', t', rfl, hv, ht'⟩ := ih rfl
    exact ⟨_, t', (List.append_assoc _ _ _).symm, .kept unbound (refers_of_append refers)
      (refers_of_append refers') hv rfl rfl, ht'⟩
  | replaced bound refers more eq eq' ih =>
    subst eq eq'
    obtain ⟨v, rfl, rfl⟩ := ht.refers refers hs.symm
    obtain ⟨v', t', rfl, hv, ht'⟩ := ih rfl
    exact ⟨_, t', (List.append_assoc _ _ _).symm, .replaced bound (refers_of_append refers) hv rfl
      rfl, ht'⟩

/-! ## The text that parameters are replaced in -/

/-- However a text is cut, its parts become what the text becomes. -/
theorem Worded.flatMap_replace {parts : List Part} (hcut : CutInto s parts)
    (h : Worded words s s') :
    parts.flatMap (Part.replace (words.mapValues plain)) = s' := by
  induction hcut generalizing s' with
  | nil => rw [h.nil_inv, List.flatMap_nil]
  | @cons s rest part parts first others ih =>
    rw [List.flatMap_cons]
    cases first with
    | dollars =>
      obtain ⟨t', rfl, ht⟩ := h.dollars_inv
      rw [ih ht]
      rfl
    | occurrence refers eq =>
      subst eq
      rw [Part.replace, Dict.get?_mapValues]
      rcases h.refers_inv refers with ⟨hnone, t', rfl, -, ht⟩ | ⟨word, t', hsome, rfl, ht⟩
      · rw [hnone, ih ht]
        rfl
      · rw [hsome, ih ht]
        simp [form, plain]
    | dollar inert ne_dollar lone eq =>
      subst eq
      obtain ⟨t', rfl, ht⟩ := h.lone_inv ne_dollar lone
      obtain ⟨u', rfl, hu⟩ := ht.of_append_inert inert
      rw [ih hu]
      rfl
    | escaped => exact absurd (by decide) (h.cons_inv (by decide)).1
    | char ne_dollar =>
      obtain ⟨-, t', rfl, ht⟩ := h.cons_inv ne_dollar
      rw [ih ht]
      rfl

theorem Worded.unique {s'' : List Char} (h : Worded words s s') (h' : Worded words s s'') :
    s' = s'' :=
  (h.flatMap_replace (cutInto_partsIn [] s)).symm.trans
    (h'.flatMap_replace (cutInto_partsIn [] s))

/-- What a text becomes is the text with its parameters replaced. -/
theorem Worded.apply_eq {text : String} (h : Worded words text.toList s') :
    (apply (words.mapValues plain) text).toList = s' := by
  rw [apply, String.toList_ofList]
  generalize text.toList = s at h
  cases hcall : bareCall? s with
  | none =>
    rw [parts, hcall]
    exact h.flatMap_replace (cutInto_partsIn [] s)
  | some rest =>
    obtain ⟨front, rfl, hinert⟩ := exists_inert_of_bareCall hcall
    obtain ⟨t', rfl, ht⟩ := h.of_append_inert hinert
    rw [parts, hcall]
    simp only
    rw [upTo_append, List.flatMap_cons, ht.flatMap_replace (cutInto_partsIn _ rest)]
    rfl

/-- No reference without braces that stays is right in front of one that is replaced: a reference
without braces is as long as its name and a dollar. -/
def Apart (words : Dict String) (s : List Char) : Prop :=
  ∀ x ∈ places s, ∀ y ∈ places s, words.get? x.2 = none → words.get? y.2 ≠ none →
    x.1 ≠ y.1 + (x.2.length + 1)

/-- A reference stays one in front of what the text behind it becomes. -/
theorem refers_of_apart {name written rest' : List Char} (h : Refers name written rest)
    (hapart : Apart words (written ++ rest)) (hunbound : words.get? (String.ofList name) = none)
    (hrest : Worded words rest rest') : Refers name written rest' := by
  cases h with
  | braces hbefore hname hafter => exact .braces hbefore hname hafter
  | plain ne_nil hname ends =>
    -- A word behind the name would be the word for a reference right behind it.
    have hrefers : Refers name ('$' :: name) rest := .plain ne_nil hname ends
    refine .plain ne_nil hname fun x hx => ?_
    cases hrest with
    | nil => cases hx
    | char plain => exact ends x hx
    | dollars => exact ends x hx
    | dollar => exact ends x hx
    | kept _ refers _ _ eq eq' => exact ends x (by rw [← hx, eq, eq', refers.head?, refers.head?])
    | @replaced name' written' u _ _ _ word bound refers more eq =>
      subst eq
      have hplaces := places_refers hrefers
      rw [places_refers refers] at hplaces
      have hbound : words.get? (String.ofList name') ≠ none := by
        rw [bound]
        nofun
      have hne := hapart _ (hplaces ▸ List.mem_cons_self) _
        (hplaces ▸ List.mem_cons_of_mem _ List.mem_cons_self) hunbound hbound
      refine absurd ?_ hne
      simp only [List.length_append, List.length_cons, String.length_ofList]
      omega

theorem Apart.of_places (h : Apart words s) (hplaces : ∀ x ∈ places t, x ∈ places s) :
    Apart words t :=
  fun x hx y hy => h x (hplaces x hx) y (hplaces y hy)

/-- A text with its references apart becomes another. The induction follows the places of its
references. -/
theorem exists_worded (hs : ∀ c ∈ s, c ≠ '$' → c ∉ markers) (hapart : Apart words s) :
    ∃ s', Worded words s s' := by
  fun_induction places s with
  | case1 => exact ⟨[], .nil⟩
  | case2 rest hdollar ih =>
    obtain ⟨t, rfl⟩ := List.head?_eq_some_iff.mp hdollar
    have hrest : ∀ c ∈ t, c ≠ '$' → c ∉ markers := fun c hc =>
      hs c (List.mem_cons_of_mem _ (List.mem_cons_of_mem _ hc))
    obtain ⟨t', ht⟩ := ih hrest (hapart.of_places fun x hx => by rwa [places_dollars])
    exact ⟨_, .dollars ht⟩
  | case3 rest hdollar name behind href _ ih =>
    obtain ⟨written, hrefers, heq⟩ := reference?_eq_some_iff.mp href
    rw [← heq] at hs hapart ⊢
    have hbehind : Apart words behind := hapart.of_places fun x hx => by
      rw [places_refers hrefers]
      exact List.mem_cons_of_mem _ hx
    obtain ⟨t', ht⟩ := ih (fun c hc => hs c (List.mem_append_right _ hc)) hbehind
    cases hget : words.get? (String.ofList name) with
    | none => exact ⟨_, .kept hget hrefers (refers_of_apart hrefers hapart hget ht) ht rfl rfl⟩
    | some word => exact ⟨_, .replaced hget hrefers ht rfl rfl⟩
  | case4 rest hdollar href ih =>
    have hlone (name written behind : List Char) (heq : written ++ behind = '$' :: rest) :
        ¬Refers name written behind := by
      intro hrefers
      have hsome := reference?_eq_some_iff.mpr ⟨written, hrefers, heq⟩
      rw [href] at hsome
      cases hsome
    have hrest : Apart words rest := hapart.of_places fun x hx => by
      rwa [places_lone hdollar hlone]
    obtain ⟨t', ht⟩ := ih (fun c hc => hs c (List.mem_cons_of_mem _ hc)) hrest
    exact ⟨_, .dollar hdollar hlone ht⟩
  | case5 c rest hc ih =>
    have hrest : Apart words rest := hapart.of_places fun x hx => by rwa [places_cons hc]
    obtain ⟨t', ht⟩ := ih (fun x hx => hs x (List.mem_cons_of_mem _ hx)) hrest
    exact ⟨_, .char (hs c List.mem_cons_self hc) ht⟩

end

end Casebook.Substitution
