import Casebook.Template.Literal
import Casebook.Text.Blank
import Casebook.Value.Rendering

/-!
# Literals

An argument without quotes and placeholders has a type. An integer that a signed word holds, a truth
value and null are read back from the text that they are rendered as.
-/

namespace Casebook.Literal

/-! ## Digits -/

theorem isDigit_of_mem_toDigits {n : Nat} {c : Char} (h : c ∈ Nat.toDigits 10 n) :
    Decimal.isDigit c = true := by
  have := Nat.isDigit_of_mem_toDigits (by decide) (by decide) h
  simpa only [Decimal.isDigit, Char.isDigit, ge_iff_le, Char.le_def] using this

theorem natOfDigits_toDigits (n : Nat) : Decimal.natOfDigits (Nat.toDigits 10 n) = n :=
  Nat.ofDigitChars_ten_toDigits

/-- No digits but those of zero begin with a zero. -/
theorem eq_zero_of_head?_toDigits {n : Nat} (h : (Nat.toDigits 10 n).head? = some '0') :
    n = 0 := by
  induction n using Nat.strongRecOn with
  | ind n ih =>
    by_cases hn : n < 10
    · rw [Nat.toDigits_of_lt_base hn] at h
      have hzero : ∀ d < 10, [Nat.digitChar d].head? = some '0' → d = 0 := by decide
      exact hzero n hn h
    · -- The first digit of a longer number is that of its tenth.
      rw [Nat.toDigits_of_base_le (by decide) (by omega), List.head?_append,
        List.head?_eq_some_head Nat.toDigits_ne_nil, Option.some_or,
        ← List.head?_eq_some_head Nat.toDigits_ne_nil] at h
      have := ih (n / 10) (by omega) h
      omega

section

variable {c : Char} {s : List Char}

theorem ne_minus_of_isDigit (h : Decimal.isDigit c = true) : c ≠ '-' := by
  intro heq
  subst heq
  exact absurd h (by decide)

theorem ne_plus_of_isDigit (h : Decimal.isDigit c = true) : c ≠ '+' := by
  intro heq
  subst heq
  exact absurd h (by decide)

theorem int?_of_digits (hne : s ≠ []) (hs : s.all Decimal.isDigit = true) :
    Decimal.int? s = some (Decimal.natOfDigits s : Int) := by
  obtain ⟨c, rest, rfl⟩ := List.exists_cons_of_ne_nil hne
  have hc : Decimal.isDigit c = true := List.all_eq_true.mp hs c List.mem_cons_self
  unfold Decimal.int?
  split
  · next h => exact absurd (List.cons.inj h).1 (ne_minus_of_isDigit hc)
  · next h => exact absurd (List.cons.inj h).1 (ne_plus_of_isDigit hc)
  · simp [hs]

theorem nat?_of_digits (hne : s ≠ []) (hs : s.all Decimal.isDigit = true) :
    Decimal.nat? s = some (Decimal.natOfDigits s) := by
  obtain ⟨c, rest, rfl⟩ := List.exists_cons_of_ne_nil hne
  have hc : Decimal.isDigit c = true := List.all_eq_true.mp hs c List.mem_cons_self
  unfold Decimal.nat?
  split
  · next h => exact absurd (List.cons.inj h).1 (ne_plus_of_isDigit hc)
  · simp [hs]

theorem int?_of_minus (hne : s ≠ []) (hs : s.all Decimal.isDigit = true) :
    Decimal.int? ('-' :: s) = some (-(Decimal.natOfDigits s : Int)) := by
  simp [Decimal.int?, hne, hs]

end

/-! ## Texts of integers -/

/-- The digits of an integer, behind its sign. -/
theorem toList_toString (i : Int) :
    (toString i).toList =
      if i < 0 then '-' :: Nat.toDigits 10 i.natAbs else Nat.toDigits 10 i.natAbs := by
  rw [Int.toString_eq_repr, Int.repr_eq_if]
  by_cases hi : i < 0
  · rw [if_neg (by omega), if_pos hi, String.toList_append, Nat.toList_repr]
    have : (-i).toNat = i.natAbs := by omega
    rw [this]
    rfl
  · rw [if_pos (by omega), if_neg hi, Nat.toList_repr]
    have : i.toNat = i.natAbs := by omega
    rw [this]

/-- An index is read back from its digits. -/
theorem nat?_toDigits (n : Nat) : Decimal.nat? (Nat.toDigits 10 n) = some n := by
  have hall : (Nat.toDigits 10 n).all Decimal.isDigit = true :=
    List.all_eq_true.mpr fun c => isDigit_of_mem_toDigits
  rw [nat?_of_digits Nat.toDigits_ne_nil hall, natOfDigits_toDigits]

theorem int?_toString (i : Int) : Decimal.int? (toString i).toList = some i := by
  have hall : (Nat.toDigits 10 i.natAbs).all Decimal.isDigit = true :=
    List.all_eq_true.mpr fun c => isDigit_of_mem_toDigits
  rw [toList_toString]
  split
  · rw [int?_of_minus Nat.toDigits_ne_nil hall, natOfDigits_toDigits, Option.some_inj]
    omega
  · rw [int?_of_digits Nat.toDigits_ne_nil hall, natOfDigits_toDigits, Option.some_inj]
    omega

/-- The characters of the text of an integer are digits and a minus. -/
theorem isDigit_or_eq_of_mem_toString {i : Int} {c : Char} (h : c ∈ (toString i).toList) :
    Decimal.isDigit c = true ∨ c = '-' := by
  rw [toList_toString] at h
  split at h
  · rcases List.mem_cons.mp h with rfl | h
    · exact .inr rfl
    · exact .inl (isDigit_of_mem_toDigits h)
  · exact .inl (isDigit_of_mem_toDigits h)

theorem isNumeric_minus_toDigits (n : Nat) : isNumeric ('-' :: Nat.toDigits 10 n) = true := by
  have hne : Nat.toDigits 10 n ≠ [] := Nat.toDigits_ne_nil
  have hhead : (Nat.toDigits 10 n).head?.any Decimal.isDigit = true := by
    rw [List.head?_eq_some_head hne]
    exact isDigit_of_mem_toDigits (List.head_mem hne)
  have hall : (Nat.toDigits 10 n).all
      (fun c => Decimal.isDigit c || c ∈ ['.', 'e', 'E', '+', '-']) = true :=
    List.all_eq_true.mpr fun c hc => by rw [isDigit_of_mem_toDigits hc, Bool.true_or]
  -- A zero in front would make the text no number, unless it is all of it.
  have hzero : (decide (1 < (Nat.toDigits 10 n).length) &&
      (Nat.toDigits 10 n).head? == some '0') = false := by
    rw [Bool.eq_false_iff]
    intro h
    obtain ⟨hlength, hhead⟩ := Bool.and_eq_true_iff.mp h
    rw [eq_zero_of_head?_toDigits (beq_iff_eq.mp hhead)] at hlength
    cases hlength
  simp only [isNumeric, hhead, hall, hzero, Bool.false_and, Bool.not_false, Bool.and_true]

theorem isNumeric_toDigits (n : Nat) : isNumeric (Nat.toDigits 10 n) = true := by
  have hne : Nat.toDigits 10 n ≠ [] := Nat.toDigits_ne_nil
  rw [← isNumeric_minus_toDigits n]
  obtain ⟨c, rest, h⟩ := List.exists_cons_of_ne_nil hne
  have hc : c ≠ '-' := ne_minus_of_isDigit (isDigit_of_mem_toDigits (h ▸ List.mem_cons_self))
  rw [h]
  unfold isNumeric
  split
  · next heq => exact absurd (List.cons.inj heq).1 hc
  · rfl

theorem isNumeric_toString (i : Int) : isNumeric (toString i).toList = true := by
  rw [toList_toString]
  split
  · exact isNumeric_minus_toDigits _
  · exact isNumeric_toDigits _

/-- The text of an integer is none of the words that are looked for first, so it is a number if it
reads as one. -/
theorem value_toString_eq (i : Int) :
    value (toString i) =
      match number? (toString i).toList with
      | some n => .number n
      | none => .string (toString i) := by
  have hword (w : String) (hw : isNumeric w.toList = false) : toString i ≠ w := by
    intro heq
    subst heq
    rw [isNumeric_toString] at hw
    cases hw
  have htrue : ¬(toString i = "true" ∨ toString i = "True") := fun h =>
    h.elim (hword "true" (by decide)) (hword "True" (by decide))
  have hfalse : ¬(toString i = "false" ∨ toString i = "False") := fun h =>
    h.elim (hword "false" (by decide)) (hword "False" (by decide))
  have hnull : ¬(toString i = "null" ∨ toString i = "None") := fun h =>
    h.elim (hword "null" (by decide)) (hword "None" (by decide))
  exact (if_neg htrue).trans ((if_neg hfalse).trans ((if_neg hnull).trans
    (if_pos (isNumeric_toString i))))

/-- An integer that a signed word holds is read back from its text. -/
theorem value_toString {i : Int} (hlow : Number.minInt ≤ i) (hhigh : i ≤ Number.maxSigned) :
    value (toString i) = .number (.int i) := by
  rw [value_toString_eq, number?, int?_toString]
  simp only [hlow, hhigh, and_self, if_true]

/-! ## Simple values -/

/-- The values that are read back from their rendering: integers that a signed word holds, truth
values and null. -/
def IsSimple : Value → Prop
  | .number (.int i) => Number.minInt ≤ i ∧ i ≤ Number.maxSigned
  | .bool _ => True
  | .null => True
  | _ => False

/-- Whether a character may occur in the rendering of a simple value. -/
def isSimpleChar (c : Char) : Bool :=
  Decimal.isDigit c || c == '-' || c.isLower

/-- A simple value is read back from its rendering. -/
theorem value_render {v : Value} (h : IsSimple v) : value v.render = v := by
  unfold IsSimple at h
  split at h
  · exact value_toString h.1 h.2
  · next b => cases b <;> rfl
  · rfl
  · exact h.elim

theorem isSimpleChar_of_mem_render {v : Value} (h : IsSimple v) {c : Char}
    (hc : c ∈ v.render.toList) : isSimpleChar c = true := by
  unfold IsSimple at h
  split at h
  · have := isDigit_or_eq_of_mem_toString hc
    simpa [isSimpleChar] using Or.inl this
  · next b =>
    have hwords : ("true".toList ++ "false".toList).all isSimpleChar = true := by decide
    refine List.all_eq_true.mp hwords c (List.mem_append.mpr ?_)
    cases b
    · exact .inr hc
    · exact .inl hc
  · have hword : "null".toList.all isSimpleChar = true := by decide
    exact List.all_eq_true.mp hword c hc
  · exact h.elim

theorem render_ne_nil {v : Value} (h : IsSimple v) : v.render.toList ≠ [] := by
  unfold IsSimple at h
  split at h
  · next i =>
    show (toString i).toList ≠ []
    rw [toList_toString]
    split
    · exact List.cons_ne_nil _ _
    · exact Nat.toDigits_ne_nil
  · next b => cases b <;> decide
  · decide
  · exact h.elim

/-- No character of a simple value means anything in an argument. -/
theorem not_special_of_isSimpleChar {c : Char} (h : isSimpleChar c = true) :
    Text.isBlank c = false ∧ c ∉ ['$', '\\', '"', '\'', '=', ',', ')'] := by
  -- All of these characters are ASCII, and of those there are few enough to go through.
  have hascii : c.toNat < 0x80 := by
    have hlower : c.isLower = (decide (c.val ≥ 'a'.val) && decide (c.val ≤ 'z'.val)) := rfl
    simp only [isSimpleChar, Decimal.isDigit, hlower, Bool.or_eq_true, Bool.and_eq_true,
      decide_eq_true_eq, beq_iff_eq, Char.le_def, UInt32.le_iff_toNat_le] at h
    have hnine : '9'.val.toNat = 57 := rfl
    have hz : 'z'.val.toNat = 122 := rfl
    show c.val.toNat < 0x80
    rcases h with (⟨-, h⟩ | rfl) | ⟨-, h⟩
    · omega
    · decide
    · omega
  have hall : ∀ n < 0x80, isSimpleChar (Char.ofNat n) = true →
      Text.isBlank (Char.ofNat n) = false ∧
        Char.ofNat n ∉ ['$', '\\', '"', '\'', '=', ',', ')'] := by decide
  have := hall c.toNat hascii
  rw [Char.ofNat_toNat] at this
  exact this h

end Casebook.Literal
