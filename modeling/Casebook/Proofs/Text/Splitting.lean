import Casebook.Text.Split

/-!
# Splitting at a separator

The parts of a text have no separator in them, and joined with separators between them they are the
text again. What is split at a separator between two texts is what either of them is split into.
-/

namespace Casebook.Text

variable {separator : Char}

theorem splitOn_of_notMem {s : List Char} (h : separator ∉ s) : splitOn separator s = [s] := by
  induction s with
  | nil => rfl
  | cons c rest ih =>
    rw [List.mem_cons, not_or] at h
    rw [splitOn, if_neg (Ne.symm h.1), ih h.2]

theorem splitOn_cons_self (s : List Char) :
    splitOn separator (separator :: s) = [] :: splitOn separator s := by
  rw [splitOn, if_pos rfl]

/-- Texts are cut at a separator between them. -/
theorem splitOn_append_cons (s t : List Char) :
    splitOn separator (s ++ separator :: t) = splitOn separator s ++ splitOn separator t := by
  induction s with
  | nil => exact splitOn_cons_self t
  | cons c rest ih =>
    rw [List.cons_append, splitOn, splitOn, ih]
    split
    · rfl
    · obtain ⟨part, parts, hparts⟩ := List.exists_cons_of_ne_nil (splitOn_ne_nil separator rest)
      rw [hparts]
      rfl

/-- The first part is what stands in front of the first separator. -/
theorem eq_append_of_splitOn {s first : List Char} {rest : List (List Char)}
    (h : splitOn separator s = first :: rest) :
    s = first ∨ ∃ t, s = first ++ separator :: t := by
  induction s generalizing first rest with
  | nil =>
    cases h
    exact .inl rfl
  | cons c s ih =>
    obtain ⟨part, parts, hparts⟩ := List.exists_cons_of_ne_nil (splitOn_ne_nil separator s)
    rw [splitOn, hparts] at h
    split at h
    · next heq =>
      cases h
      exact .inr ⟨s, heq ▸ rfl⟩
    · cases h
      rcases ih hparts with rfl | ⟨t, rfl⟩
      · exact .inl rfl
      · exact .inr ⟨t, rfl⟩

theorem notMem_of_mem_splitOn {s part : List Char} (h : part ∈ splitOn separator s) :
    separator ∉ part := by
  induction s generalizing part with
  | nil =>
    rw [List.mem_singleton.mp h]
    exact List.not_mem_nil
  | cons c rest ih =>
    obtain ⟨first, parts, hparts⟩ := List.exists_cons_of_ne_nil (splitOn_ne_nil separator rest)
    rw [hparts] at ih
    rw [splitOn, hparts] at h
    split at h
    · rcases List.mem_cons.mp h with rfl | hmem
      · exact List.not_mem_nil
      · exact ih hmem
    · next hne =>
      rcases List.mem_cons.mp h with rfl | hmem
      · rw [List.mem_cons, not_or]
        exact ⟨Ne.symm hne, ih List.mem_cons_self⟩
      · exact ih (List.mem_cons_of_mem first hmem)

/-- Parts that are joined again are cut apart again. -/
theorem splitOn_intercalate {parts : List (List Char)} (hne : parts ≠ [])
    (h : ∀ part ∈ parts, separator ∉ part) :
    splitOn separator ([separator].intercalate parts) = parts := by
  induction parts with
  | nil => exact absurd rfl hne
  | cons part rest ih =>
    rw [List.forall_mem_cons] at h
    cases rest with
    | nil =>
      rw [List.intercalate_singleton]
      exact splitOn_of_notMem h.1
    | cons next rest =>
      rw [List.intercalate_cons_cons, List.append_assoc, List.singleton_append,
        splitOn_append_cons, splitOn_of_notMem h.1, ih (List.cons_ne_nil next rest) h.2]
      rfl

end Casebook.Text
