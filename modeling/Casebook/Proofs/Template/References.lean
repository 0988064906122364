import Casebook.Proofs.Template.Canonical
import Casebook.Proofs.Text.Blanks
import Casebook.Template.Substitution

/-!
# References

`Refers name written rest` says that a text, `written` in front of `rest`, begins with a dollar that
refers to a name: the longest word behind the dollar, or a name in braces. The parser reads a
variable there, and the scanner that replaces parameters finds an occurrence.

What a template refers to is what its pieces refer to, so neither joining pieces into segments nor
dropping the blanks behind an argument changes it.
-/

namespace Casebook.Template

open Text Segment Substitution

/-! ## References in a text -/

/-- A text begins with a reference to a name, and goes on behind it. -/
inductive Refers (name : List Char) : List Char → List Char → Prop where
  | plain {rest : List Char} (ne_nil : name ≠ []) (isWord : ∀ c ∈ name, isWord c = true)
      (ends : Ends Text.isWord rest) : Refers name ('$' :: name) rest
  | braces {before after rest : List Char} (before_blank : ∀ c ∈ before, isBlank c = true)
      (isWord : ∀ c ∈ name, isWord c = true) (after_blank : ∀ c ∈ after, isBlank c = true) :
      Refers name ('$' :: '\x7b' :: (before ++ (name ++ (after ++ ['\x7d'])))) rest

section Braced

variable {s before name after rest : List Char}

/-- A text is its blanks and the word behind them, in front of what is left behind more blanks. -/
theorem exists_eq_append_word (s : List Char) :
    ∃ before after, s = before ++ ((word (skipBlanks s)).1 ++ (after ++
        skipBlanks (word (skipBlanks s)).2)) ∧
      (∀ c ∈ before, isBlank c = true) ∧ (∀ c ∈ (word (skipBlanks s)).1, isWord c = true) ∧
      ∀ c ∈ after, isBlank c = true := by
  have hblanks (s : List Char) : s.takeWhile isBlank ++ skipBlanks s = s :=
    List.takeWhile_append_dropWhile
  refine ⟨s.takeWhile isBlank, (word (skipBlanks s)).2.takeWhile isBlank, ?_, ?_, ?_, ?_⟩
  · rw [hblanks, word_append, hblanks]
  · exact List.all_eq_true.mp List.all_takeWhile
  · exact fun c => isWord_of_mem_word
  · exact List.all_eq_true.mp List.all_takeWhile

theorem exists_word_skipBlanks {c : Char} (rest : List Char)
    (hbefore : ∀ c ∈ before, isBlank c = true) (hname : ∀ c ∈ name, isWord c = true)
    (hafter : ∀ c ∈ after, isBlank c = true)
    (hc : isWord c = false) (hblank : isBlank c = false) :
    ∃ mid, word (skipBlanks (before ++ (name ++ (after ++ c :: rest)))) = (name, mid) ∧
      skipBlanks mid = c :: rest := by
  cases name with
  | nil =>
    -- Without a name the blanks on both sides of it are skipped at once.
    have hskip : skipBlanks (before ++ ([] ++ (after ++ c :: rest))) = c :: rest := by
      rw [List.nil_append, ← List.append_assoc]
      refine skipBlanks_append_of_ends (fun x hx => ?_) (ends_cons.mpr hblank)
      exact (List.mem_append.mp hx).elim (hbefore x) (hafter x)
    rw [hskip]
    exact ⟨_, word_cons_of_not hc rest, skipBlanks_of_ends (ends_cons.mpr hblank)⟩
  | cons x name =>
    have hskip : skipBlanks (before ++ (x :: name ++ (after ++ c :: rest))) =
        x :: name ++ (after ++ c :: rest) := by
      refine skipBlanks_append_of_ends hbefore (ends_cons.mpr ?_)
      exact isBlank_eq_false_of_isWord (hname x List.mem_cons_self)
    have hend : Ends isWord (after ++ c :: rest) := by
      cases after with
      | nil => exact ends_cons.mpr hc
      | cons y after =>
        exact ends_cons.mpr (isWord_eq_false_of_isBlank (hafter y List.mem_cons_self))
    rw [hskip]
    exact ⟨_, word_append_of_ends hname hend,
      skipBlanks_append_of_ends hafter (ends_cons.mpr hblank)⟩

theorem braced_eq_name_iff :
    braced s = .name name rest ↔
      ∃ mid, word (skipBlanks s) = (name, mid) ∧ skipBlanks mid = '\x7d' :: rest := by
  rcases hword : word (skipBlanks s) with ⟨name', mid⟩
  constructor
  · intro h
    simp only [braced, hword] at h
    split at h
    · next r hr =>
      simp only [Braced.name.injEq] at h
      obtain ⟨rfl, rfl⟩ := h
      exact ⟨mid, rfl, hr⟩
    · split at h <;> cases h
    · cases h
  · intro h'
    obtain ⟨mid', hpair, hskip⟩ := h'
    obtain ⟨rfl, rfl⟩ := Prod.mk.inj hpair
    simp only [braced, hword, hskip]

theorem exists_of_braced_call (h : braced s = .call rest) :
    ∃ name mid, word (skipBlanks s) = (name, mid) ∧ skipBlanks mid = '(' :: rest := by
  rcases hword : word (skipBlanks s) with ⟨name, mid⟩
  simp only [braced, hword] at h
  split at h
  · cases h
  · next r hr =>
    split at h
    · cases h
    · simp only [Braced.call.injEq] at h
      obtain rfl := h
      exact ⟨name, mid, rfl, hr⟩
  · cases h

/-- What is a name in braces is it whatever follows. -/
theorem braced_append (rest : List Char) (hbefore : ∀ c ∈ before, isBlank c = true)
    (hname : ∀ c ∈ name, isWord c = true) (hafter : ∀ c ∈ after, isBlank c = true) :
    braced (before ++ (name ++ (after ++ '\x7d' :: rest))) = .name name rest :=
  braced_eq_name_iff.mpr (exists_word_skipBlanks rest hbefore hname hafter (by decide) (by decide))

/-- A placeholder reads as a variable exactly what is a name in braces. -/
theorem takesPlaceholder_var_iff {room : ℕ} {n : String} :
    TakesPlaceholder (room + 1) s (.var n) rest ↔
      ∃ name, braced s = .name name rest ∧ name ≠ [] ∧ String.ofList name = n := by
  have hskip (s : List Char) : skipBlanks (skipBlanks s) = skipBlanks s :=
    skipBlanks_of_ends (ends_skipBlanks s)
  constructor
  · intro h'
    obtain ⟨mid, h, hclosed⟩ := h'
    cases h with
    | var word_eq ne_nil =>
      rw [hskip] at hclosed
      exact ⟨_, braced_eq_name_iff.mpr ⟨_, word_eq, hclosed⟩, ne_nil, rfl⟩
  · intro h'
    obtain ⟨name, h, hname, rfl⟩ := h'
    obtain ⟨mid, hword, hclosed⟩ := braced_eq_name_iff.mp h
    refine ⟨skipBlanks mid, .var hword hname ?_, by rw [hskip, hclosed]⟩
    rw [hclosed]
    simp

/-- A placeholder reads as a call nothing that is a name in braces. -/
theorem braced_ne_name_of_call {room : ℕ} {c : Call} (h : TakesPlaceholder room s (.call c) rest)
    (name rest' : List Char) : braced s ≠ .name name rest' := by
  intro hname
  obtain ⟨mid, hword, hclosed⟩ := braced_eq_name_iff.mp hname
  cases room with
  | zero => exact h
  | succ room =>
    obtain ⟨_, h, -⟩ := h
    cases h with
    | call word_eq _ opened =>
      rw [hword] at word_eq
      obtain ⟨rfl, rfl⟩ := Prod.mk.inj word_eq
      cases hclosed.symm.trans opened

theorem refers_of_word {s : List Char} (hword : word s = (name, rest)) (hname : name ≠ []) :
    Refers name ('$' :: name) rest := by
  obtain ⟨-, hname', hrest⟩ := word_eq_iff.mp hword
  exact .plain hname hname' hrest

theorem exists_refers_of_braced (h : braced s = .name name rest) :
    ∃ written, Refers name written rest ∧ written ++ rest = '$' :: '\x7b' :: s := by
  obtain ⟨mid, hword, hclosed⟩ := braced_eq_name_iff.mp h
  obtain ⟨before, after, hs, hbefore, hname, hafter⟩ := exists_eq_append_word s
  rw [hword, hclosed] at hs
  rw [hword] at hname
  refine ⟨_, .braces hbefore hname hafter, ?_⟩
  rw [hs]
  simp

/-- A reference is a word behind a dollar or a name in braces. -/
theorem Refers.word_or_braced {written : List Char} (h : Refers name written rest)
    (heq : written ++ rest = '$' :: s) :
    (word s = (name, rest) ∧ name ≠ []) ∨ ∃ t, s = '\x7b' :: t ∧ braced t = .name name rest := by
  cases h with
  | plain ne_nil hname hrest =>
    obtain rfl := (List.cons.inj heq).2
    exact .inl ⟨word_append_of_ends hname hrest, ne_nil⟩
  | @braces before after _ hbefore hname hafter =>
    have hs : s = '\x7b' :: (before ++ (name ++ (after ++ '\x7d' :: rest))) := by
      simpa using heq.symm
    exact .inr ⟨_, hs, braced_append rest hbefore hname hafter⟩

/-- A text refers to one name, written in one way. -/
theorem Refers.unique {name' written written' rest' : List Char} (h : Refers name written rest)
    (h' : Refers name' written' rest') (heq : written ++ rest = written' ++ rest') :
    name = name' ∧ rest = rest' := by
  obtain ⟨t, ht⟩ : ∃ t, written ++ rest = '$' :: t := by
    cases h <;> exact ⟨_, rfl⟩
  -- A brace is in no word, so the two are written alike.
  have hbrace {name : List Char} {t rest : List Char} (hword : word ('\x7b' :: t) = (name, rest)) :
      name = [] := by
    rw [word_cons_of_not (by decide)] at hword
    exact (Prod.mk.inj hword).1.symm
  rcases h.word_or_braced ht with ⟨hword, hname⟩ | ⟨u, rfl, hu⟩ <;>
    rcases h'.word_or_braced (heq ▸ ht) with ⟨hword', hname'⟩ | ⟨u', hu', hbraced⟩
  · exact Prod.mk.inj (hword.symm.trans hword')
  · subst hu'
    exact absurd (hbrace hword) hname
  · exact absurd (hbrace hword') hname'
  · obtain rfl := (List.cons.inj hu').2
    exact Braced.name.inj (hu.symm.trans hbraced)

/-- A dollar in front of a text that begins no reference refers to nothing. -/
theorem not_refers_of_lone (hlone : ∀ x, s.head? = some x → x ≠ '$' ∧ x ≠ '\x7b' ∧ isWord x = false)
    (name written rest : List Char) (heq : written ++ rest = '$' :: s) :
    ¬Refers name written rest := by
  intro h
  rcases h.word_or_braced heq with ⟨hword, hname⟩ | ⟨t, rfl, -⟩
  · obtain ⟨c, after, rfl, hc⟩ := exists_cons_of_word hword hname
    have hc' := (hlone c rfl).2.2
    rw [hc] at hc'
    cases hc'
  · exact (hlone _ rfl).2.1 rfl

/-- A brace behind a dollar refers to nothing if no name in braces begins there. -/
theorem not_refers_of_braced (hbraced : ∀ name rest, braced s ≠ .name name rest)
    (name written rest : List Char) (heq : written ++ rest = '$' :: '\x7b' :: s) :
    ¬Refers name written rest := by
  intro h
  rcases h.word_or_braced heq with ⟨hword, hname⟩ | ⟨t, ht, hbraced'⟩
  · rw [word_cons_of_not (by decide)] at hword
    exact hname (Prod.mk.inj hword).1.symm
  · obtain rfl := (List.cons.inj ht).2
    exact hbraced name rest hbraced'

/-- What a name is referred to by does not depend on what follows, but for its first character. -/
theorem Refers.congr {written rest' : List Char} (h : Refers name written rest)
    (hhead : rest'.head? = rest.head?) : Refers name written rest' := by
  cases h with
  | plain ne_nil hname hrest => exact .plain ne_nil hname fun c hc => hrest c (hhead ▸ hc)
  | braces hbefore hname hafter => exact .braces hbefore hname hafter

end Braced

/-! ## References in segments -/

/-- The variables a piece refers to. -/
def Piece.references : Piece → List String
  | .char _ => []
  | .placeholder s => s.references

theorem referencesOfSegments_consText (text : List Char) (segments : List Segment) :
    referencesOfSegments (consText text segments) = referencesOfSegments segments := by
  cases text <;> rfl

theorem referencesOfSegments_ofPieces (ps : List Piece) :
    referencesOfSegments (ofPieces ps) = ps.flatMap Piece.references := by
  rw [ofPieces, referencesOfSegments_consText]
  induction ps with
  | nil => rfl
  | cons p ps ih =>
    cases p with
    | char c => exact ih
    | placeholder s =>
      rw [splitPieces, referencesOfSegments, referencesOfSegments_consText, ih]
      rfl

theorem referencesOfSegments_trimLast (segments : List Segment) :
    referencesOfSegments (trimLast segments) = referencesOfSegments segments := by
  fun_induction trimLast segments with
  | case1 => rfl
  | case2 => rfl
  | case3 => rfl
  | case4 s rest _ ih => rw [referencesOfSegments, referencesOfSegments, ih]

theorem referencesOfSegments_of_all_isText {segments : List Segment}
    (h : segments.all isText = true) : referencesOfSegments segments = [] := by
  induction segments with
  | nil => rfl
  | cons s rest ih =>
    obtain ⟨hs, hrest⟩ := Bool.and_eq_true_iff.mp h
    rw [referencesOfSegments, ih hrest, List.append_nil]
    cases s with
    | text => rfl
    | _ => cases hs

theorem referencesOfArg_unquoted (key : Option String) (segments : List Segment)
    (source : String) :
    referencesOfArg (unquoted key segments source) = referencesOfSegments segments := by
  unfold unquoted
  split
  · next h => exact (referencesOfSegments_of_all_isText h).symm
  · rfl

end Casebook.Template
