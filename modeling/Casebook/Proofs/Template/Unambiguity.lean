import Casebook.Proofs.Template.Deriving
import Mathlib.Data.List.DropRight

/-!
# One derivation for each text

Two trees that fit and begin at the same place are the same and end at the same place. What an item
is can be told by two characters, a run of blanks or of a word goes as far as it can, and where the
parser sees a keyword there is one in every tree. Placeholders are compared by induction on the
number of openings in them.
-/

namespace Casebook.Template

open Text

/-! ## Items -/

/-- The forms that items have. -/
inductive Item.Kind where
  | char
  | escaped
  | dollars
  | name
  | braces

/-- The form of an item. -/
def Item.kind : Item → Item.Kind
  | .char _ => .char
  | .escaped _ => .escaped
  | .dollars => .dollars
  | .name _ => .name
  | .braces _ => .braces

/-- The form of the item that a text begins with, by its first two characters. -/
def kindAt (stop : Stop) : List Char → Item.Kind
  | '\\' :: x :: _ => if stop.escapes x then .escaped else .char
  | '$' :: x :: _ =>
    if x = '$' then .dollars
    else if x = '\x7b' then .braces
    else if isWord x then .name
    else .char
  | _ => .char

theorem Item.Fits.kindAt_eq {stop : Stop} {follow : List Char} {i : Item} (h : i.Fits stop follow) :
    kindAt stop (i.text ++ follow) = i.kind := by
  cases i with
  | char c =>
    obtain ⟨hbackslash, hdollar⟩ := h
    cases follow with
    | nil => simp [Item.text, kindAt, Item.kind]
    | cons x follow =>
      by_cases hc : c = '\\'
      · subst hc
        simp [Item.text, kindAt, Item.kind, hbackslash rfl x rfl]
      by_cases hc' : c = '$'
      · subst hc'
        simp [Item.text, kindAt, Item.kind, hdollar rfl x rfl]
      simp [Item.text, kindAt, Item.kind, hc, hc']
  | escaped c =>
    have hc : stop.escapes c = true := h
    simp [Item.text, kindAt, Item.kind, hc]
  | dollars => rfl
  | name name =>
    obtain ⟨c, name, rfl⟩ := List.exists_cons_of_ne_nil h.1.ne_nil
    have hc := h.1.isWord c List.mem_cons_self
    have hdollar : c ≠ '$' := by rintro rfl; exact absurd hc (by decide)
    have hbrace : c ≠ '\x7b' := by rintro rfl; exact absurd hc (by decide)
    simp [Item.text, kindAt, Item.kind, hc, hdollar, hbrace]
  | braces inner => rfl

/-- Placeholders that fit and have less than so many openings in them are told apart. -/
def UniqueInner (k : ℕ) : Prop :=
  ∀ inner inner' : Inner, inner.Fits → inner'.Fits → openings inner.text < k →
    ∀ rest rest', inner.text ++ rest = inner'.text ++ rest' → inner = inner' ∧ rest = rest'

section

variable {k : ℕ} {stop : Stop} {s s' rest rest' : List Char}

theorem Item.Fits.unique (hinner : UniqueInner k) {i i' : Item} (h : i.Fits stop s)
    (h' : i'.Fits stop s') (hk : openings i.text ≤ k) (heq : i.text ++ s = i'.text ++ s') :
    i = i' ∧ s = s' := by
  have hkind : i.kind = i'.kind := by rw [← h.kindAt_eq, heq, h'.kindAt_eq]
  cases i with
  | char c =>
    cases i' with
    | char c' =>
      obtain ⟨rfl, rfl⟩ := List.cons.inj heq
      exact ⟨rfl, rfl⟩
    | _ => cases hkind
  | escaped c =>
    cases i' with
    | escaped c' =>
      obtain ⟨rfl, rfl⟩ := List.cons.inj (List.cons.inj heq).2
      exact ⟨rfl, rfl⟩
    | _ => cases hkind
  | dollars =>
    cases i' with
    | dollars => exact ⟨rfl, (List.cons.inj (List.cons.inj heq).2).2⟩
    | _ => cases hkind
  | name name =>
    cases i' with
    | name name' =>
      obtain ⟨rfl, rfl⟩ := append_inj_of_ends h.1.isWord h.2 h'.1.isWord h'.2
        (List.cons.inj heq).2
      exact ⟨rfl, rfl⟩
    | _ => cases hkind
  | braces inner =>
    cases i' with
    | braces inner' =>
      rw [Item.text, openings_braces] at hk
      obtain ⟨rfl, rfl⟩ := hinner inner inner' h h' hk s s'
        (List.cons.inj (List.cons.inj heq).2).2
      exact ⟨rfl, rfl⟩
    | _ => cases hkind

/-- No item begins where a template ends. -/
theorem FitsItems.not_ends_cons {i : Item} {items : List Item} (h : FitsItems stop s (i :: items))
    (ends : ∀ c, (textOfItems (i :: items) ++ s).head? = some c → stop.endsAt c = true) : False := by
  obtain ⟨c, t, ht⟩ := i.exists_text_eq_cons
  have hgoes := h.1 c (by rw [ht]; rfl)
  rw [ends c (by rw [textOfItems, ht]; rfl)] at hgoes
  cases hgoes

/-- The induction is on the items of one of the texts. -/
theorem FitsItems.unique (hinner : UniqueInner k) {items items' : List Item}
    (h : FitsItems stop s items) (h' : FitsItems stop s' items')
    (ends : ∀ c, s.head? = some c → stop.endsAt c = true)
    (ends' : ∀ c, s'.head? = some c → stop.endsAt c = true)
    (hk : openings (textOfItems items) ≤ k)
    (heq : textOfItems items ++ s = textOfItems items' ++ s') : items = items' ∧ s = s' := by
  induction items generalizing items' with
  | nil =>
    cases items' with
    | nil => exact ⟨rfl, heq⟩
    | cons i' items' => exact (h'.not_ends_cons (heq ▸ ends)).elim
  | cons i items ih =>
    cases items' with
    | nil => exact (h.not_ends_cons (heq ▸ ends')).elim
    | cons i' items' =>
      rw [textOfItems] at hk
      rw [textOfItems, textOfItems, List.append_assoc, List.append_assoc] at heq
      obtain ⟨rfl, hrest⟩ := h.2.1.unique hinner h'.2.1
        (Nat.le_trans (openings_le_append _ _) hk) heq
      obtain ⟨rfl, rfl⟩ := ih h.2.2 h'.2.2
        (Nat.le_trans (openings_le_of_suffix (List.suffix_append _ _)) hk) hrest
      exact ⟨rfl, rfl⟩

/-! ## Arguments -/

/-- Whether an item is a blank. -/
def Item.isBlank : Item → Bool
  | .char c => Text.isBlank c
  | _ => false

/-- What stands in front of blanks at the end is what is left without them. -/
theorem rdropWhile_append_blanks {body : List Item} {blanks : List Char}
    (hlast : ∀ c, body.getLast? = some (.char c) → Text.isBlank c = false)
    (hblanks : AreBlanks blanks) :
    (body ++ blanks.map Item.char).rdropWhile Item.isBlank = body := by
  induction blanks using List.reverseRecOn with
  | nil =>
    rw [List.map_nil, List.append_nil, List.rdropWhile_eq_self_iff]
    intro hne hblank
    have hget : body.getLast? = some (body.getLast hne) := List.getLast?_eq_some_getLast hne
    cases hi : body.getLast hne with
    | char c =>
      rw [hi] at hget hblank
      rw [Item.isBlank, hlast c hget] at hblank
      cases hblank
    | _ =>
      rw [hi] at hblank
      cases hblank
  | append_singleton blanks c ih =>
    have hc : Item.isBlank (.char c) = true := hblanks c (by simp)
    rw [List.map_append, ← List.append_assoc, List.map_singleton, List.rdropWhile_concat_pos _ _ _ hc]
    exact ih fun x hx => hblanks x (List.mem_append_left _ hx)

/-- A value that begins with a quote is quoted. -/
theorem Content.Fits.ne_quote {body : List Item} (h : (Content.unquoted body).Fits) {quote : Char}
    (hquote : quote = '"' ∨ quote = '\'') : textOfItems body ++ s ≠ quote :: rest := by
  intro heq
  obtain ⟨c, t, htext, -⟩ := h.exists_text_eq_cons
  rw [Content.text] at htext
  rw [htext] at heq
  obtain rfl : c = quote := (List.cons.inj heq).1
  exact (h.2.1 c (by rw [htext]; rfl)).2 hquote

theorem Content.Fits.unique (hinner : UniqueInner k) {v v' : Content} (h : v.Fits) (h' : v'.Fits)
    {after after' : List Char} (hafter : AreBlanks after) (hafter' : AreBlanks after')
    {c c' : Char} (hc : c = ',' ∨ c = ')') (hc' : c' = ',' ∨ c' = ')')
    (hk : openings (v.text ++ after) ≤ k)
    (heq : v.text ++ (after ++ c :: rest) = v'.text ++ (after' ++ c' :: rest')) :
    v = v' ∧ after = after' ∧ c :: rest = c' :: rest' := by
  have hends {x : Char} (hx : x = ',' ∨ x = ')') (t : List Char) :
      Ends Text.isBlank (x :: t) := ends_cons.mpr (isBarrier_of_closes hx).not_blank
  cases v with
  | quoted quote body =>
    obtain ⟨hquote, hbody⟩ := h
    cases v' with
    | quoted quote' body' =>
      obtain ⟨-, hbody'⟩ := h'
      simp only [Content.text, List.cons_append, List.append_assoc, List.nil_append] at heq
      obtain ⟨rfl, hbodies⟩ := List.cons.inj heq
      have hinfix : textOfItems body <:+: quote :: (textOfItems body ++ [quote]) ++ after :=
        ⟨[quote], [quote] ++ after, by simp⟩
      have hfits : FitsItems (.quote quote) (quote :: (after ++ c :: rest)) body :=
        hbody.alike (.inl rfl)
      have hfits' : FitsItems (.quote quote) (quote :: (after' ++ c' :: rest')) body' :=
        hbody'.alike (.inl rfl)
      obtain ⟨rfl, hblanks⟩ := hfits.unique hinner hfits' (by simp [Stop.endsAt])
        (by simp [Stop.endsAt]) (Nat.le_trans (openings_mono hinfix) hk) hbodies
      obtain ⟨rfl, hrest⟩ := append_inj_of_ends hafter (hends hc rest) hafter' (hends hc' rest')
        (List.cons.inj hblanks).2
      exact ⟨rfl, rfl, hrest⟩
    | unquoted body' => exact absurd heq.symm (h'.ne_quote hquote)
  | unquoted body =>
    cases v' with
    | quoted quote' body' => exact absurd heq (h.ne_quote h'.1)
    | unquoted body' =>
      obtain ⟨-, -, hlast, hbody⟩ := h
      obtain ⟨-, -, hlast', hbody'⟩ := h'
      -- With the blanks behind them the items go on to what ends the argument.
      have hall {items : List Item} {blanks : List Char} (t : List Char) :
          textOfItems items ++ (blanks ++ t) = textOfItems (items ++ blanks.map .char) ++ t := by
        rw [textOfItems_append, textOfItems_chars, List.append_assoc]
      rw [Content.text, Content.text, hall, hall] at heq
      rw [Content.text, ← textOfItems_chars after, ← textOfItems_append] at hk
      obtain ⟨hitems, hrest⟩ := FitsItems.unique hinner (hbody.append_blanks hafter hc)
        (hbody'.append_blanks hafter' hc') (by simpa [Stop.endsAt] using hc)
        (by simpa [Stop.endsAt] using hc') hk heq
      have hbodies : body = body' := by
        rw [← rdropWhile_append_blanks hlast hafter, hitems,
          rdropWhile_append_blanks hlast' hafter']
      subst hbodies
      have hblanks := List.append_cancel_left hitems
      have hinj : Function.Injective Item.char := fun _ _ h => Item.char.inj h
      exact ⟨rfl, List.map_injective_iff.mpr hinj hblanks, hrest⟩

/-- A word between blanks, in front of what is neither, is told apart from the blanks. -/
theorem word_between_blanks {before name gap before' name' gap' : List Char} {c c' : Char}
    (hbefore : AreBlanks before) (hname : IsWordText name) (hgap : AreBlanks gap)
    (hc : isWord c = false ∧ Text.isBlank c = false) (hbefore' : AreBlanks before')
    (hname' : IsWordText name') (hgap' : AreBlanks gap')
    (hc' : isWord c' = false ∧ Text.isBlank c' = false)
    (heq : before ++ (name ++ (gap ++ c :: rest)) = before' ++ (name' ++ (gap' ++ c' :: rest'))) :
    before = before' ∧ name = name' ∧ gap = gap' ∧ c :: rest = c' :: rest' := by
  have hstart {w : List Char} (hw : IsWordText w) (t : List Char) :
      Ends Text.isBlank (w ++ t) := by
    obtain ⟨x, w, rfl⟩ := List.exists_cons_of_ne_nil hw.ne_nil
    exact ends_cons.mpr (isBlank_eq_false_of_isWord (hw.isWord x List.mem_cons_self))
  have hend {blanks : List Char} (hblanks : AreBlanks blanks) {x : Char} (hx : isWord x = false)
      (t : List Char) : Ends isWord (blanks ++ x :: t) := by
    cases blanks with
    | nil => exact ends_cons.mpr hx
    | cons y blanks =>
      exact ends_cons.mpr (isWord_eq_false_of_isBlank (hblanks y List.mem_cons_self))
  obtain ⟨rfl, hword⟩ := append_inj_of_ends hbefore (hstart hname _) hbefore' (hstart hname' _) heq
  obtain ⟨rfl, hblanks⟩ := append_inj_of_ends hname.isWord (hend hgap hc.1 rest) hname'.isWord
    (hend hgap' hc'.1 rest') hword
  obtain ⟨rfl, hrest⟩ := append_inj_of_ends hgap (ends_cons.mpr hc.2) hgap' (ends_cons.mpr hc'.2)
    hblanks
  exact ⟨rfl, rfl, rfl, hrest⟩

/-- The parser sees the same keyword and value in both, and they are read in one way each. -/
theorem WrittenArgument.Fits.unique (hinner : UniqueInner k) {a a' : WrittenArgument} (h : a.Fits)
    (h' : a'.Fits) {c c' : Char} (hc : c = ',' ∨ c = ')') (hc' : c' = ',' ∨ c' = ')')
    (hk : openings a.text ≤ k) (heq : a.text ++ c :: rest = a'.text ++ c' :: rest') :
    a = a' ∧ c :: rest = c' :: rest' := by
  obtain ⟨mid, hkey, hskip⟩ := h.keyword_eq hc rest
  obtain ⟨mid', hkey', hskip'⟩ := h'.keyword_eq hc' rest'
  rw [heq, hkey', Prod.mk.injEq] at hkey
  obtain ⟨hkeys, rfl⟩ := hkey
  -- Both trees leave the same text for the value, so the values agree, and then so does the text in
  -- front of them.
  obtain ⟨key, before, content, after⟩ := a
  obtain ⟨key', before', content', after'⟩ := a'
  obtain ⟨hbefore, hcontent, hafter, hfits⟩ := h
  obtain ⟨hbefore', hcontent', hafter', hfits'⟩ := h'
  have hsuffix : content.text ++ after <:+ WrittenArgument.text ⟨key, before, content, after⟩ :=
    ⟨key.elim [] Keyword.text ++ before, by simp [WrittenArgument.text]⟩
  obtain ⟨rfl, rfl, hrest⟩ := hcontent.unique hinner hcontent' hafter hafter' hc hc'
    (Nat.le_trans (openings_le_of_suffix hsuffix) hk) (hskip.symm.trans hskip')
  rw [hrest] at heq
  have htext := List.append_cancel_right heq
  have hequals : isWord '=' = false ∧ Text.isBlank '=' = false := by decide
  cases key with
  | none =>
    cases key' with
    | none =>
      have hvalue : before ++ (content.text ++ after) = before' ++ (content.text ++ after) := htext
      obtain rfl := List.append_cancel_right hvalue
      exact ⟨rfl, hrest⟩
    | some => cases hkeys
  | some k =>
    cases key' with
    | none => cases hkeys
    | some k' =>
      have hwritten : k.before ++ (k.name ++ (k.gap ++ '=' :: (before ++ (content.text ++ after)))) =
          k'.before ++ (k'.name ++ (k'.gap ++ '=' :: (before' ++ (content.text ++ after)))) := by
        simpa [WrittenArgument.text, Keyword.text] using htext
      obtain ⟨hk, -⟩ := hfits
      obtain ⟨hk', -⟩ := hfits'
      obtain ⟨h1, h2, h3, h4⟩ := word_between_blanks hk.before hk.name hk.gap hequals hk'.before
        hk'.name hk'.gap hequals hwritten
      obtain rfl := List.append_cancel_right (List.cons.inj h4).2
      obtain ⟨b, n, g⟩ := k
      obtain ⟨b', n', g'⟩ := k'
      cases h1
      cases h2
      cases h3
      exact ⟨rfl, hrest⟩

/-- Behind an argument stands a comma or the closing parenthesis. -/
theorem exists_textOfMore_eq_cons (more : List WrittenArgument) (t : List Char) :
    ∃ c s, textOfMore more ++ t = c :: s ∧ (c = ',' ∨ c = ')') := by
  cases more with
  | nil => exact ⟨')', t, rfl, .inr rfl⟩
  | cons a more => exact ⟨',', _, rfl, .inl rfl⟩

theorem WrittenArgument.Fits.unique_more (hinner : UniqueInner k) {a a' : WrittenArgument}
    {more more' : List WrittenArgument} (h : a.Fits) (h' : a'.Fits) (hk : openings a.text ≤ k)
    (heq : a.text ++ (textOfMore more ++ rest) = a'.text ++ (textOfMore more' ++ rest')) :
    a = a' ∧ textOfMore more ++ rest = textOfMore more' ++ rest' := by
  obtain ⟨c, s, hs, hc⟩ := exists_textOfMore_eq_cons more rest
  obtain ⟨c', s', hs', hc'⟩ := exists_textOfMore_eq_cons more' rest'
  rw [hs, hs'] at heq ⊢
  exact h.unique hinner h' hc hc' hk heq

/-- The induction is on the arguments of one of the texts. -/
theorem FitsMore.unique (hinner : UniqueInner k) {a a' : WrittenArgument}
    {more more' : List WrittenArgument} (hmore : FitsMore more) (h : a.Fits)
    (hmore' : FitsMore more') (h' : a'.Fits) (hk : openings (a.text ++ textOfMore more) ≤ k)
    (heq : a.text ++ (textOfMore more ++ rest) = a'.text ++ (textOfMore more' ++ rest')) :
    a = a' ∧ more = more' ∧ rest = rest' := by
  induction more generalizing a a' more' with
  | nil =>
    obtain ⟨rfl, hrest⟩ := h.unique_more hinner h'
      (Nat.le_trans (openings_le_append _ _) hk) heq
    cases more' with
    | nil => exact ⟨rfl, rfl, (List.cons.inj hrest).2⟩
    | cons => cases hrest
  | cons b more ih =>
    obtain ⟨rfl, hrest⟩ := h.unique_more hinner h'
      (Nat.le_trans (openings_le_append _ _) hk) heq
    cases more' with
    | nil => cases hrest
    | cons b' more' =>
      have hsuffix : b.text ++ textOfMore more <:+ a.text ++ textOfMore (b :: more) :=
        ⟨a.text ++ [','], by simp [textOfMore]⟩
      have hothers : b.text ++ (textOfMore more ++ rest) =
          b'.text ++ (textOfMore more' ++ rest') := by
        simpa [textOfMore] using hrest
      obtain ⟨rfl, rfl, rfl⟩ := ih hmore.2 hmore.1 hmore'.2 hmore'.1
        (Nat.le_trans (openings_le_of_suffix hsuffix) hk) hothers
      exact ⟨rfl, rfl, rfl⟩

/-- No argument that fits begins with the closing parenthesis, blanks aside. -/
theorem WrittenArgument.Fits.ne_blanks {a : WrittenArgument} (h : a.Fits) {c : Char}
    (hc : c = ',' ∨ c = ')') {blanks : List Char} (hblanks : AreBlanks blanks) :
    a.text ++ c :: rest ≠ blanks ++ ')' :: rest' := by
  intro heq
  -- The argument can be read, and no argument is read where the parenthesis closes.
  have hroom := takesInner_takesPlaceholder (openings a.text)
  obtain ⟨mid, htakes, -⟩ := h.takesArgument (isFramed_takesPlaceholder _) hroom
    (Nat.le_refl _) hc rest
  refine htakes.head?_ne ?_
  rw [heq, skipBlanks_end (.inr rfl) hblanks]
  rfl

theorem Arguments.Fits.unique (hinner : UniqueInner k) {args args' : Arguments} (h : args.Fits)
    (h' : args'.Fits) (hk : openings args.text ≤ k)
    (heq : args.text ++ rest = args'.text ++ rest') : args = args' ∧ rest = rest' := by
  have hparen : Text.isBlank ')' = false := by decide
  have hne {first : WrittenArgument} (hfirst : first.Fits) (more : List WrittenArgument)
      {blanks : List Char} (hblanks : AreBlanks blanks) {t u : List Char} :
      first.text ++ (textOfMore more ++ t) ≠ blanks ++ ')' :: u := by
    obtain ⟨c, s, hs, hc⟩ := exists_textOfMore_eq_cons more t
    rw [hs]
    exact hfirst.ne_blanks hc hblanks
  cases args with
  | none blanks =>
    rw [Arguments.text, List.append_assoc] at heq
    cases args' with
    | none blanks' =>
      rw [Arguments.text, List.append_assoc] at heq
      obtain ⟨rfl, hrest⟩ := append_inj_of_ends h (ends_cons.mpr hparen) h' (ends_cons.mpr hparen)
        heq
      exact ⟨rfl, (List.cons.inj hrest).2⟩
    | some first' more' =>
      rw [Arguments.text, List.append_assoc] at heq
      exact absurd heq.symm (hne h'.1 more' h)
  | some first more =>
    rw [Arguments.text, List.append_assoc] at heq
    cases args' with
    | none blanks' =>
      rw [Arguments.text, List.append_assoc] at heq
      exact absurd heq (hne h.1 more h')
    | some first' more' =>
      rw [Arguments.text, List.append_assoc] at heq
      obtain ⟨rfl, rfl, rfl⟩ := h.2.unique hinner h.1 h'.2 h'.1 hk heq
      exact ⟨rfl, rfl⟩

end

/-! ## Placeholders and templates -/

/-- The induction is on the number of openings. -/
theorem uniqueInner (k : ℕ) : UniqueInner k := by
  induction k with
  | zero => exact fun _ _ _ _ hk => absurd hk (Nat.not_lt_zero _)
  | succ k ih =>
    intro inner inner' h h' hk rest rest' heq
    have hbrace : isWord '\x7d' = false ∧ Text.isBlank '\x7d' = false := by decide
    have hparen : isWord '(' = false ∧ Text.isBlank '(' = false := by decide
    cases inner with
    | var before name after =>
      obtain ⟨hbefore, hname, hafter⟩ := h
      cases inner' with
      | var before' name' after' =>
        obtain ⟨hbefore', hname', hafter'⟩ := h'
        simp only [Inner.text, List.append_assoc] at heq
        obtain ⟨rfl, rfl, rfl, hrest⟩ := word_between_blanks hbefore hname hafter hbrace hbefore'
          hname' hafter' hbrace heq
        exact ⟨rfl, (List.cons.inj hrest).2⟩
      | call before' name' gap' arguments' after' =>
        obtain ⟨hbefore', hname', hgap', -⟩ := h'
        simp only [Inner.text, List.append_assoc, List.cons_append] at heq
        obtain ⟨-, -, -, hrest⟩ := word_between_blanks hbefore hname hafter hbrace hbefore'
          hname' hgap' hparen heq
        exact absurd (List.cons.inj hrest).1 (by decide)
    | call before name gap arguments after =>
      obtain ⟨hbefore, hname, hgap, harguments, hafter⟩ := h
      cases inner' with
      | var before' name' after' =>
        obtain ⟨hbefore', hname', hafter'⟩ := h'
        simp only [Inner.text, List.append_assoc, List.cons_append] at heq
        obtain ⟨-, -, -, hrest⟩ := word_between_blanks hbefore hname hgap hparen hbefore'
          hname' hafter' hbrace heq
        exact absurd (List.cons.inj hrest).1 (by decide)
      | call before' name' gap' arguments' after' =>
        obtain ⟨hbefore', hname', hgap', harguments', hafter'⟩ := h'
        have hinfix : arguments.text <:+: Inner.text (.call before name gap arguments after) :=
          ⟨before ++ (name ++ (gap ++ ['('])), after ++ ['\x7d'], by simp [Inner.text]⟩
        simp only [Inner.text, List.append_assoc, List.cons_append] at heq
        obtain ⟨rfl, rfl, rfl, hopened⟩ := word_between_blanks hbefore hname hgap hparen hbefore'
          hname' hgap' hparen heq
        obtain ⟨rfl, hclosed⟩ := harguments.unique ih harguments'
          (Nat.le_trans (openings_mono hinfix) (Nat.le_of_lt_succ hk))
          (List.cons.inj hopened).2
        obtain ⟨rfl, hrest⟩ := append_inj_of_ends hafter (ends_cons.mpr hbrace.2) hafter'
          (ends_cons.mpr hbrace.2) hclosed
        exact ⟨rfl, (List.cons.inj hrest).2⟩

/-- A text has one derivation at most. -/
theorem Derives.unique {text : String} {items items' : List Item} (h : Derives text items)
    (h' : Derives text items') : items = items' := by
  obtain ⟨htext, hfits⟩ := h
  obtain ⟨htext', hfits'⟩ := h'
  refine (hfits.unique (uniqueInner (openings text.toList)) hfits' (by simp) (by simp)
    (Nat.le_of_eq (by rw [htext])) ?_).1
  rw [htext, htext']

end Casebook.Template
