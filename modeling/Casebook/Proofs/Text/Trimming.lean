import Casebook.Proofs.Text.Scanning

/-!
# Trimming

Only the blanks at the ends of a text are trimmed, so trimming is undone by putting blanks back, and
a text that ends in another character keeps its end.
-/

namespace Casebook.Text

section

variable {s t blanks : List Char} {c : Char}

/-- Of two texts behind one another the second is trimmed, and the first if nothing is left of it.
-/
theorem trimEnd_append (s t : List Char) :
    trimEnd (s ++ t) = if trimEnd t = [] then trimEnd s else s ++ trimEnd t := by
  induction s with
  | nil =>
    by_cases ht : trimEnd t = []
    · rw [List.nil_append, if_pos ht, ht, trimEnd]
    · rw [List.nil_append, if_neg ht, List.nil_append]
  | cons c s ih =>
    rw [List.cons_append, trimEnd, ih]
    by_cases ht : trimEnd t = []
    · rw [if_pos ht, if_pos ht, trimEnd]
    · rw [if_neg ht, if_neg ht]
      cases h : s ++ trimEnd t with
      | nil => exact absurd (List.append_eq_nil_iff.mp h).2 ht
      | cons x more => rw [List.cons_append, h]

theorem trimEnd_of_blanks (h : ∀ c ∈ blanks, isBlank c = true) : trimEnd blanks = [] := by
  induction blanks with
  | nil => rfl
  | cons c blanks ih =>
    rw [trimEnd, ih fun x hx => h x (List.mem_cons_of_mem c hx)]
    exact if_pos (h c List.mem_cons_self)

theorem trimEnd_append_blanks (h : ∀ c ∈ blanks, isBlank c = true) (s : List Char) :
    trimEnd (s ++ blanks) = trimEnd s := by
  rw [trimEnd_append, if_pos (trimEnd_of_blanks h)]

/-- A text that ends in no blank is left as it is. -/
theorem trimEnd_concat (hc : isBlank c = false) (s : List Char) :
    trimEnd (s ++ [c]) = s ++ [c] := by
  have hlast : trimEnd [c] = [c] := by
    rw [trimEnd, trimEnd, hc]
    rfl
  rw [trimEnd_append, hlast, if_neg (List.cons_ne_nil c [])]

/-- What stands between blanks is left of a text, if it begins and ends in other characters. -/
theorem trim_append_blanks {before after : List Char} (hbefore : ∀ x ∈ before, isBlank x = true)
    (hafter : ∀ x ∈ after, isBlank x = true) (hs : Ends isBlank (s ++ [c]))
    (hc : isBlank c = false) : trim (before ++ (s ++ c :: after)) = s ++ [c] := by
  have hstart : Ends isBlank (s ++ c :: after) := by
    intro x hx
    refine hs x ?_
    rw [← hx]
    cases s <;> rfl
  have hsplit : s ++ c :: after = s ++ [c] ++ after := by simp
  rw [trim, skipBlanks_append_of_ends hbefore hstart, hsplit, trimEnd_append_blanks hafter,
    trimEnd_concat hc]

theorem exists_eq_trimEnd_append (s : List Char) :
    ∃ blanks, s = trimEnd s ++ blanks ∧ ∀ c ∈ blanks, isBlank c = true := by
  induction s with
  | nil => exact ⟨[], rfl, by simp⟩
  | cons c s ih =>
    obtain ⟨blanks, hs, hblanks⟩ := ih
    rw [trimEnd]
    cases h : trimEnd s with
    | cons x kept =>
      rw [h] at hs
      refine ⟨blanks, ?_, hblanks⟩
      show c :: s = c :: (x :: kept ++ blanks)
      rw [← hs]
    | nil =>
      rw [h, List.nil_append] at hs
      by_cases hc : isBlank c = true
      · refine ⟨c :: s, by rw [if_pos hc]; rfl, fun x hx => ?_⟩
        rcases List.mem_cons.mp hx with rfl | hx
        · exact hc
        · exact hblanks x (hs ▸ hx)
      · refine ⟨s, by rw [if_neg hc]; rfl, fun x hx => hblanks x (hs ▸ hx)⟩

theorem exists_eq_skipBlanks_append (s : List Char) :
    ∃ blanks, s = blanks ++ skipBlanks s ∧ ∀ c ∈ blanks, isBlank c = true :=
  ⟨s.takeWhile isBlank, List.takeWhile_append_dropWhile.symm,
    List.all_eq_true.mp List.all_takeWhile⟩

/-- A text is what is left of it when it is trimmed, between blanks. -/
theorem exists_eq_append_trim (s : List Char) :
    ∃ before after, s = before ++ (trim s ++ after) ∧ (∀ c ∈ before, isBlank c = true) ∧
      ∀ c ∈ after, isBlank c = true := by
  obtain ⟨before, hs, hbefore⟩ := exists_eq_skipBlanks_append s
  obtain ⟨after, hs', hafter⟩ := exists_eq_trimEnd_append (skipBlanks s)
  exact ⟨before, after, by rw [trim, ← hs', ← hs], hbefore, hafter⟩

theorem length_trimmed_le (s : String) : (trimmed s).length ≤ s.length := by
  obtain ⟨before, after, hs, -, -⟩ := exists_eq_append_trim s.toList
  have hlength := congrArg List.length hs
  rw [List.length_append, List.length_append, String.length_toList] at hlength
  rw [trimmed, String.length_ofList]
  omega

/-- Nothing is left of a text that is nothing but blanks. -/
theorem trim_eq_nil_iff : trim s = [] ↔ ∀ c ∈ s, isBlank c = true := by
  constructor
  · intro h
    obtain ⟨before, after, hs, hbefore, hafter⟩ := exists_eq_append_trim s
    rw [h, List.nil_append] at hs
    rw [hs]
    exact List.forall_mem_append.mpr ⟨hbefore, hafter⟩
  · intro h
    have hskip := skipBlanks_append_of_ends h (ends_nil isBlank)
    rw [List.append_nil] at hskip
    rw [trim, hskip, trimEnd]

end

end Casebook.Text
