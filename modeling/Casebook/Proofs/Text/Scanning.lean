import Casebook.Text.Word

/-!
# Scanning

Words and blanks are taken from the front of a text as far as they go. A scan of `name ++ rest`
gives the two back if `name` has only characters of its kind and `rest` begins with none.
-/

namespace Casebook.Text

/-! ## Runs of one kind -/

section

variable {p : Char → Bool} {run rest : List Char}

/-- No character of a kind stands in front. -/
def Ends (p : Char → Bool) (s : List Char) : Prop :=
  ∀ c, s.head? = some c → p c = false

theorem ends_nil (p : Char → Bool) : Ends p [] := by
  simp [Ends]

@[simp] theorem ends_cons {c : Char} {s : List Char} : Ends p (c :: s) ↔ p c = false := by
  simp [Ends]

theorem takeWhile_append_of_ends (hrun : ∀ c ∈ run, p c = true) (hrest : Ends p rest) :
    (run ++ rest).takeWhile p = run := by
  rw [List.takeWhile_append_of_pos hrun]
  cases rest with
  | nil => simp
  | cons c s => simp [ends_cons.mp hrest]

theorem dropWhile_append_of_ends (hrun : ∀ c ∈ run, p c = true) (hrest : Ends p rest) :
    (run ++ rest).dropWhile p = rest := by
  rw [List.dropWhile_append_of_pos hrun]
  cases rest with
  | nil => simp
  | cons c s => simp [ends_cons.mp hrest]

/-- A run in front of what ends it is the same however the text is put together. -/
theorem append_inj_of_ends {run' rest' : List Char} (hrun : ∀ c ∈ run, p c = true)
    (hrest : Ends p rest) (hrun' : ∀ c ∈ run', p c = true) (hrest' : Ends p rest')
    (h : run ++ rest = run' ++ rest') : run = run' ∧ rest = rest' := by
  constructor
  · rw [← takeWhile_append_of_ends hrun hrest, h, takeWhile_append_of_ends hrun' hrest']
  · rw [← dropWhile_append_of_ends hrun hrest, h, dropWhile_append_of_ends hrun' hrest']

theorem ends_dropWhile (p : Char → Bool) (s : List Char) : Ends p (s.dropWhile p) := by
  induction s with
  | nil => exact ends_nil p
  | cons c s ih =>
    by_cases hc : p c = true
    · rwa [List.dropWhile_cons_of_pos hc]
    · rw [List.dropWhile_cons_of_neg hc]
      exact ends_cons.mpr (by simpa using hc)

end

/-! ## Words and blanks -/

/-- A word is scanned off a text if the text is the word in front of what begins with no word. -/
theorem word_eq_iff {s name rest : List Char} :
    word s = (name, rest) ↔
      s = name ++ rest ∧ (∀ c ∈ name, isWord c = true) ∧ Ends isWord rest := by
  constructor
  · intro h
    obtain ⟨rfl, rfl⟩ := Prod.mk.inj h
    exact ⟨(word_append s).symm, fun c => isWord_of_mem_word, ends_dropWhile isWord s⟩
  · intro h'
    obtain ⟨rfl, hname, hrest⟩ := h'
    rw [word, takeWhile_append_of_ends hname hrest, dropWhile_append_of_ends hname hrest]

theorem word_append_of_ends {name rest : List Char} (hname : ∀ c ∈ name, isWord c = true)
    (hrest : Ends isWord rest) : word (name ++ rest) = (name, rest) :=
  word_eq_iff.mpr ⟨rfl, hname, hrest⟩

/-- There is no word in front of a text that begins with another character. -/
theorem word_cons_of_not {c : Char} (hc : isWord c = false) (s : List Char) :
    word (c :: s) = ([], c :: s) :=
  word_eq_iff.mpr ⟨rfl, by simp, ends_cons.mpr hc⟩

/-- Without a word in front nothing is taken. -/
theorem word_snd_of_fst_eq_nil {s : List Char} (h : (word s).1 = []) : (word s).2 = s := by
  have hsplit := word_append s
  rwa [h, List.nil_append] at hsplit

/-- A text with a word in front begins with a character of it. -/
theorem exists_cons_of_word {s name rest : List Char} (h : word s = (name, rest))
    (hname : name ≠ []) : ∃ c after, s = c :: after ∧ isWord c = true := by
  obtain ⟨rfl, hword, -⟩ := word_eq_iff.mp h
  obtain ⟨c, more, rfl⟩ := List.exists_cons_of_ne_nil hname
  exact ⟨c, more ++ rest, rfl, hword c List.mem_cons_self⟩

theorem skipBlanks_append_of_ends {blanks rest : List Char}
    (hblanks : ∀ c ∈ blanks, isBlank c = true) (hrest : Ends isBlank rest) :
    skipBlanks (blanks ++ rest) = rest :=
  dropWhile_append_of_ends hblanks hrest

/-- A text that begins with no blank is left as it is. -/
theorem skipBlanks_of_ends {s : List Char} (h : Ends isBlank s) : skipBlanks s = s := by
  have hnone : ∀ c ∈ ([] : List Char), isBlank c = true := by simp
  exact skipBlanks_append_of_ends hnone h

theorem ends_skipBlanks (s : List Char) : Ends isBlank (skipBlanks s) :=
  ends_dropWhile isBlank s

end Casebook.Text
