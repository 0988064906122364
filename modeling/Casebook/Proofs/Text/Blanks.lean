import Casebook.Text.Word

/-!
# Blanks are no part of words

A word never begins or ends with a blank, so trimming a text around a word leaves the word. The sets
that words are made of are written in rows, and each row is read once to see that no range in it has
a blank.
-/

namespace Casebook.Text

open Unicode

/-- The code points of the blanks that are not ASCII. -/
def wideBlanks : List Nat :=
  [0x85, 0xA0, 0x1680, 0x2000, 0x2001, 0x2002, 0x2003, 0x2004, 0x2005, 0x2006, 0x2007, 0x2008,
    0x2009, 0x200A, 0x2028, 0x2029, 0x202F, 0x205F, 0x3000]

/-- Whether no range in a row has a blank. -/
def isFreeOfBlanks (row : List Char) : Bool :=
  ((splitOn ' ' row).flatMap CharSet.ofWord).all fun r =>
    Nat.blt 0x3000 r.1 || wideBlanks.all fun n => Nat.blt n r.1 || Nat.blt r.2 n

theorem not_contains_of_rows {rows : List String} {c : Char}
    (h : rows.all (fun row => isFreeOfBlanks row.toList) = true) (hc : c.toNat ∈ wideBlanks) :
    ¬(CharSet.ofRows rows).contains c := by
  rw [CharSet.ofRows, CharSet.contains_ofRanges]
  intro h'
  obtain ⟨r, hr, hlow, hhigh⟩ := h'
  obtain ⟨row, hrow, hr⟩ := List.mem_flatMap.mp hr
  have hfree := List.all_eq_true.mp (List.all_eq_true.mp h row hrow) r hr
  rw [Bool.or_eq_true, List.all_eq_true] at hfree
  rcases hfree with habove | hfree
  · have hle : ∀ n ∈ wideBlanks, n ≤ 0x3000 := by decide
    have := hle _ hc
    have := Nat.blt_eq.mp habove
    omega
  · have := hfree _ hc
    simp only [Bool.or_eq_true, Nat.blt_eq] at this
    omega

/-- The sets that words are made of, as they are written. -/
def wordSets : List CharSet :=
  [uppercaseLetter, lowercaseLetter, titlecaseLetter, modifierLetter, otherLetter, decimalNumber,
    letterNumber, otherNumber, otherAlphabetic, recentAlphabetic, recentNumber]

theorem not_contains_of_mem_wordSets {a : CharSet} (ha : a ∈ wordSets) {c : Char}
    (hc : c.toNat ∈ wideBlanks) : ¬a.contains c := by
  simp only [wordSets, List.mem_cons, List.not_mem_nil, or_false] at ha
  rcases ha with rfl | rfl | rfl | rfl | rfl | rfl | rfl | rfl | rfl | rfl | rfl
  all_goals
    refine not_contains_of_rows ?_ hc
    simp only [List.all_cons, List.all_nil]
    -- The kernel reads a list of characters much faster than a string.
    repeat rw [String.toList_ofList]
    decide +kernel

theorem exists_wordSet_of_isAlphanumeric {c : Char} (hwide : ¬c.toNat < 0x80)
    (h : isAlphanumeric c = true) : ∃ a ∈ wordSets, a.contains c := by
  -- Each set of letters and numbers is a union of those that are written out.
  have hletter (h : letter.contains c) : ∃ a ∈ wordSets, a.contains c := by
    obtain ⟨a, ha, h⟩ := (CharSet.contains_unionAll _ c).mp h
    exact ⟨a, List.mem_append_left _ ha, h⟩
  have hnumber (h : number.contains c) : ∃ a ∈ wordSets, a.contains c := by
    obtain ⟨a, ha, h⟩ := (CharSet.contains_unionAll _ c).mp h
    exact ⟨a, List.mem_append_right [uppercaseLetter, lowercaseLetter, titlecaseLetter,
      modifierLetter, otherLetter] (List.mem_append_left _ ha), h⟩
  have halphabetic (h : alphabetic.contains c) : ∃ a ∈ wordSets, a.contains c := by
    obtain ⟨a, ha, h⟩ := (CharSet.contains_unionAll _ c).mp h
    simp only [List.mem_cons, List.not_mem_nil, or_false] at ha
    rcases ha with rfl | rfl | rfl
    · exact hletter h
    · exact ⟨letterNumber, by simp [wordSets], h⟩
    · exact ⟨otherAlphabetic, by simp [wordSets], h⟩
  simp only [isAlphanumeric, isAlphabetic, if_neg hwide, Bool.or_eq_true] at h
  rcases h with ((h | h) | h) | h
  · exact halphabetic h
  · exact ⟨recentAlphabetic, by simp [wordSets], h⟩
  · exact hnumber h
  · exact ⟨recentNumber, by simp [wordSets], h⟩

/-- No blank is part of a word. -/
theorem isWord_eq_false_of_isBlank {c : Char} (h : isBlank c = true) : isWord c = false := by
  by_cases hwide : c.toNat < 0x80
  · -- Below 128 words are told apart without any set.
    have hnarrow : ∀ n < 0x80, isBlank (Char.ofNat n) = true → isWord (Char.ofNat n) = false := by
      decide
    have := hnarrow c.toNat hwide
    rw [Char.ofNat_toNat] at this
    exact this h
  · have hc : c.toNat ∈ wideBlanks := by
      simp only [isBlank, Bool.or_eq_true, Bool.and_eq_true, decide_eq_true_eq, beq_iff_eq] at h
      simp only [wideBlanks, List.mem_cons, List.not_mem_nil, or_false]
      omega
    rw [Bool.eq_false_iff]
    intro hword
    simp only [isWord, Bool.or_eq_true, beq_iff_eq] at hword
    rcases hword with hword | rfl
    · obtain ⟨a, ha, hcontains⟩ := exists_wordSet_of_isAlphanumeric hwide hword
      exact not_contains_of_mem_wordSets ha hc hcontains
    · exact hwide (by decide)

/-- A word begins with no blank. -/
theorem isBlank_eq_false_of_isWord {c : Char} (h : isWord c = true) : isBlank c = false := by
  rw [Bool.eq_false_iff]
  intro hblank
  rw [isWord_eq_false_of_isBlank hblank] at h
  cases h

end Casebook.Text
