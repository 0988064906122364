import Casebook.Proofs.Template.Extent
import Casebook.Proofs.Template.PlainText

/-!
# Joining texts

A dollar can be put in front of a text that is read in pieces, unless the two begin a placeholder or
are two dollars; so can a name behind a dollar, whatever follows it. Hence a text that fits between
quotes, that is, one that is read up to the closing quote and no further, can be put in front of any
other text that is read up to the closing quote, if a dollar at its end is not read with what
follows.
-/

namespace Casebook.Template

open Text Segment

/-- A text that would not be read with a dollar in front of it as more than a variable. -/
def SafeBehindDollar (s : List Char) : Prop :=
  ∀ x, s.head? = some x → x ≠ '$' ∧ x ≠ '\x7b'

/-- A text between quotes of one kind is read up to the closing quote. -/
def Fits (depth : ℕ) (q : Char) (s : List Char) : Prop :=
  ∃ ps, Reads (pieces (placeholder depth) (.quote q)) (s ++ [q]) ps [q]

theorem fits_iff {depth : ℕ} {q : Char} {s : List Char} :
    Fits depth q s ↔
      ∃ ps, TakesPieces (TakesPlaceholder depth) (.quote q) (s ++ [q]) ps [q] := by
  simp only [Fits, reads_pieces_iff, reads_placeholder]

/-- A word behind a dollar is the name of a variable, or the begin of it. -/
theorem safeBehindDollar_of_word {name : List Char} (ne_nil : name ≠ [])
    (hname : ∀ c ∈ name, isWord c = true) (s : List Char) : SafeBehindDollar (name ++ s) := by
  obtain ⟨x, name, rfl⟩ := List.exists_cons_of_ne_nil ne_nil
  intro y hy
  obtain rfl : x = y := Option.some.inj hy
  have hx := hname x List.mem_cons_self
  constructor
  · rintro rfl
    exact absurd hx (by decide)
  · rintro rfl
    exact absurd hx (by decide)

section

variable {P : Rule Segment} {stop : Stop} {s t rest : List Char} {ps : List Piece}

theorem TakesPieces.cons_dollar (hstop : stop.IsUsual) (h : TakesPieces P stop t ps rest)
    (ht : SafeBehindDollar t) : ∃ ps', TakesPieces P stop ('$' :: t) ps' rest := by
  by_cases hword : (word t).1 = []
  · have hlone : ∀ x, t.head? = some x → x ≠ '$' ∧ x ≠ '\x7b' ∧ isWord x = false := by
      intro x hx
      obtain ⟨t, rfl⟩ := List.head?_eq_some_iff.mp hx
      refine ⟨(ht x hx).1, (ht x hx).2, ?_⟩
      cases hx' : isWord x with
      | false => rfl
      | true => simp [word, hx'] at hword
    exact ⟨_, .more hstop.goes_on (.dollar hlone) h⟩
  · -- The word in front of the text is the name of a variable.
    rw [← word_append t] at h
    obtain ⟨qs, -, hqs⟩ := h.of_append_inert hstop fun c hc =>
      inert_of_isWord (isWord_of_mem_word hc)
    exact ⟨_, .more hstop.goes_on (.name rfl hword) hqs⟩

/-- A piece between quotes is read in front of any text, unless it is a dollar at the end of what is
between the quotes. -/
theorem TakesPiece.append_quoted (hP : IsFramed P) {q : Char} (hq : q = '"' ∨ q = '\'') {c : Char}
    {u v : List Char} {p : Piece} (goes_on : (Stop.quote q).endsAt c = false)
    (first : TakesPiece P (.quote q) (c :: (u ++ [q])) p (v ++ [q]))
    (hdollar : endsInDollar (c :: u) = true → SafeBehindDollar t) :
    (endsInDollar v = true → SafeBehindDollar t) ∧
      (∀ ps, TakesPieces P (.quote q) (v ++ t) ps rest →
        ∃ ps', TakesPieces P (.quote q) (c :: (u ++ t)) ps' rest) := by
  have hstop := isUsual_quote hq
  have hmore (hends : endsInDollar (c :: u) = endsInDollar v) (h : endsInDollar v = true) :
      SafeBehindDollar t :=
    hdollar (hends.trans h)
  generalize hall : u ++ [q] = all at first
  generalize hrest : v ++ [q] = mid at first
  -- What is in front of the closing quote is the piece and what follows it.
  have hfront {w : List Char} (hw : all = w ++ mid) : u = w ++ v := by
    rw [← hall, ← hrest, ← List.append_assoc] at hw
    exact List.append_cancel_right hw
  cases first with
  | @escaped x _ escapes =>
    have hx : x ≠ '$' := by
      rintro rfl
      rw [hstop.escapes] at escapes
      cases escapes
    obtain rfl : u = [x] ++ v := hfront rfl
    exact ⟨hmore (endsInDollar_append_cons hx ['\\'] v),
      fun _ h => ⟨_, .more goes_on (.escaped escapes) h⟩⟩
  | backslash plain =>
    obtain rfl : u = [] ++ v := hfront rfl
    refine ⟨hmore (endsInDollar_cons (by decide) u),
      fun _ h => ⟨_, .more goes_on (.backslash fun x hx => plain x ?_) h⟩⟩
    subst hall
    cases u with
    | nil => exact absurd (plain q rfl) (by simp [Stop.escapes])
    | cons y u => exact hx
  | dollars =>
    obtain rfl : u = ['$'] ++ v := hfront rfl
    exact ⟨hmore rfl, fun _ h => ⟨_, .more goes_on .dollars h⟩⟩
  | braces inner =>
    obtain ⟨w, rfl, hw⟩ := hP.frame inner
    obtain rfl : u = '\x7b' :: (w ++ ['\x7d']) ++ v := hfront (by simp)
    have hends : endsInDollar ('$' :: '\x7b' :: w ++ '\x7d' :: v) = endsInDollar v :=
      endsInDollar_append_cons (by decide) _ v
    refine ⟨hmore (by simpa using hends), fun _ h => ?_⟩
    have hall' : TakesPieces P (.quote q) _ _ rest := .more goes_on (.braces (hw (v ++ t))) h
    exact ⟨_, by simpa using hall'⟩
  | @name _ name _ word_eq ne_nil =>
    obtain ⟨rfl, hisWord, -⟩ := word_eq_iff.mp word_eq
    obtain rfl : u = name ++ v := hfront rfl
    have hends : endsInDollar ('$' :: (name ++ v)) = endsInDollar v := by
      obtain ⟨init, x, rfl⟩ : ∃ init x, name = init ++ [x] :=
        ⟨_, _, (List.dropLast_concat_getLast ne_nil).symm⟩
      have hx : x ≠ '$' := fun hx => absurd (hisWord x (by simp)) (by rw [hx]; decide)
      have hends := endsInDollar_append_cons hx ('$' :: init) v
      simpa using hends
    refine ⟨hmore hends, fun _ h => ?_⟩
    -- The name may go on in the text behind it.
    have hname := h.append_inert hstop fun x hx => inert_of_isWord (hisWord x hx)
    rw [List.append_assoc]
    exact hname.cons_dollar hstop (safeBehindDollar_of_word ne_nil hisWord _)
  | dollar lone =>
    obtain rfl : u = [] ++ v := hfront rfl
    subst hall
    cases u with
    | nil => exact ⟨fun _ => hdollar rfl, fun _ h => h.cons_dollar hstop (hdollar rfl)⟩
    | cons y u =>
      have hy := lone y rfl
      refine ⟨hmore (endsInDollar_lone hy.1 u), fun _ h => h.cons_dollar hstop fun x hx => ?_⟩
      obtain rfl : y = x := Option.some.inj hx
      exact ⟨hy.1, hy.2.1⟩
  | char ne_backslash ne_dollar =>
    obtain rfl : u = [] ++ v := hfront rfl
    exact ⟨hmore (endsInDollar_cons ne_dollar u),
      fun _ h => ⟨_, .more goes_on (.char ne_backslash ne_dollar) h⟩⟩

/-- A text that fits between quotes is read in front of any text that is read up to a quote. -/
theorem TakesPieces.append_quoted (hP : IsFramed P) {q : Char} (hq : q = '"' ∨ q = '\'')
    {qs : List Piece} (hs : TakesPieces P (.quote q) (s ++ [q]) qs [q])
    (ht : TakesPieces P (.quote q) t ps rest)
    (hdollar : endsInDollar s = true → SafeBehindDollar t) :
    ∃ ps', TakesPieces P (.quote q) (s ++ t) ps' rest := by
  generalize hall : s ++ [q] = all at hs
  generalize hlast : [q] = last at hs
  induction hs generalizing s with
  | done =>
    subst hlast
    obtain rfl : s = [] := by simpa using hall
    exact ⟨ps, ht⟩
  | @more c all mid last p qs goes_on first others ih =>
    subst hlast
    obtain ⟨v, rfl, -⟩ := others.frame hP
    cases s with
    | nil =>
      obtain rfl : q = c := (List.cons.inj hall).1
      simp [Stop.endsAt] at goes_on
    | cons x u =>
      obtain ⟨rfl, rfl⟩ := List.cons.inj hall
      obtain ⟨hends, hmore⟩ := first.append_quoted hP hq goes_on hdollar
      obtain ⟨ps', hps'⟩ := ih hends rfl rfl
      exact hmore ps' hps'

end

end Casebook.Template
