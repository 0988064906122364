import Casebook.Decimal.Reading
import Casebook.Text.Split

/-!
# Sets of characters

A set of characters is kept as the ranges of their code points, in ascending order and with a gap
between one range and the next, so that equal sets have equal ranges. Main statements: membership
in a union, an intersection, a difference and a complement is what these words say.

Sets of the standard are written as rows of text: `41` is one code point in hexadecimal digits,
`41-5A` a range with both its ends, and `100-12E/2` every second code point of a range.
-/

namespace Casebook.Unicode

/-- Ranges in ascending order, none of them empty, with a gap between one and the next. -/
def Ascending (rs : List (Nat × Nat)) : Prop :=
  (∀ r ∈ rs, r.1 ≤ r.2) ∧ rs.Pairwise fun r s => r.2 + 1 < s.1

/-- Whether one of some ranges covers a code point. -/
def Covers (rs : List (Nat × Nat)) (n : Nat) : Prop :=
  ∃ r ∈ rs, r.1 ≤ n ∧ n ≤ r.2

/-! ## Putting ranges in order -/

/-- Put a range in front of ascending ranges, as one with those that it touches. -/
def absorb (r : Nat × Nat) : List (Nat × Nat) → List (Nat × Nat)
  | [] => [r]
  | s :: rest =>
    if s.1 ≤ r.2 + 1 then absorb (r.1, max r.2 s.2) rest else r :: s :: rest

/-- Ranges in the order of their lower ends, with those that touch made one. -/
def coalesce : List (Nat × Nat) → List (Nat × Nat)
  | [] => []
  | r :: rest => absorb r (coalesce rest)

/-- The gaps in front of ascending ranges, between them and behind them, from a code point on. -/
def gaps (start last : Nat) : List (Nat × Nat) → List (Nat × Nat)
  | [] => if start ≤ last then [(start, last)] else []
  | r :: rest =>
    if start < r.1 then (start, r.1 - 1) :: gaps (r.2 + 1) last rest else gaps (r.2 + 1) last rest

theorem covers_cons {r : Nat × Nat} {rs : List (Nat × Nat)} {n : Nat} :
    Covers (r :: rs) n ↔ (r.1 ≤ n ∧ n ≤ r.2) ∨ Covers rs n := by
  simp [Covers]

theorem Ascending.tail {r : Nat × Nat} {rs : List (Nat × Nat)} (h : Ascending (r :: rs)) :
    Ascending rs :=
  ⟨fun s hs => h.1 s (List.mem_cons_of_mem r hs), (List.pairwise_cons.mp h.2).2⟩

theorem lt_of_mem_absorb {m : Nat} (r : Nat × Nat) (rs : List (Nat × Nat)) (hr : m < r.1)
    (hs : ∀ s ∈ rs, m < s.1) : ∀ s ∈ absorb r rs, m < s.1 := by
  induction rs generalizing r with
  | nil => simpa [absorb] using hr
  | cons s rest ih =>
    have hrest : ∀ t ∈ rest, m < t.1 := fun t ht => hs t (List.mem_cons_of_mem s ht)
    unfold absorb
    split
    · exact ih _ hr hrest
    · intro t ht
      rcases List.mem_cons.mp ht with rfl | ht
      · exact hr
      · exact hs t ht

theorem Ascending.absorb {r : Nat × Nat} {rs : List (Nat × Nat)} (hr : r.1 ≤ r.2)
    (h : Ascending rs) : Ascending (absorb r rs) := by
  induction rs generalizing r with
  | nil => exact ⟨by simpa [Unicode.absorb] using hr, by simp [Unicode.absorb]⟩
  | cons s rest ih =>
    unfold Unicode.absorb
    split
    · exact ih (by simp only; omega) h.tail
    · rename_i hgap
      have hs := List.pairwise_cons.mp h.2
      have hlen := h.1 s List.mem_cons_self
      refine ⟨fun t ht => ?_, List.pairwise_cons.mpr ⟨fun t ht => ?_, h.2⟩⟩
      · rcases List.mem_cons.mp ht with rfl | ht
        · exact hr
        · exact h.1 t ht
      · rcases List.mem_cons.mp ht with rfl | ht
        · omega
        · have := hs.1 t ht
          omega

theorem covers_absorb {r : Nat × Nat} {rs : List (Nat × Nat)} {n : Nat}
    (hrs : ∀ s ∈ rs, r.1 ≤ s.1) (h : Ascending rs) :
    Covers (absorb r rs) n ↔ (r.1 ≤ n ∧ n ≤ r.2) ∨ Covers rs n := by
  induction rs generalizing r with
  | nil => simp [absorb, Covers]
  | cons s rest ih =>
    have hs := hrs s List.mem_cons_self
    have hlen := h.1 s List.mem_cons_self
    unfold absorb
    split
    · rename_i htouch
      rw [covers_cons, ← or_assoc]
      have hrest : ∀ t ∈ rest, r.1 ≤ t.1 := fun t ht => hrs t (List.mem_cons_of_mem s ht)
      refine (ih (r := (r.1, max r.2 s.2)) hrest h.tail).trans (or_congr_left ?_)
      simp only
      omega
    · rw [covers_cons]

theorem ascending_coalesce {rs : List (Nat × Nat)} (h : ∀ r ∈ rs, r.1 ≤ r.2) :
    Ascending (coalesce rs) := by
  induction rs with
  | nil => exact ⟨by simp [coalesce], by simp [coalesce]⟩
  | cons r rest ih =>
    exact (ih fun s hs => h s (List.mem_cons_of_mem r hs)).absorb (h r List.mem_cons_self)

theorem le_of_mem_coalesce {m : Nat} {rs : List (Nat × Nat)} (h : ∀ r ∈ rs, m ≤ r.1) :
    ∀ r ∈ coalesce rs, m ≤ r.1 := by
  induction rs with
  | nil => simp [coalesce]
  | cons r rest ih =>
    cases m with
    | zero => simp
    | succ m =>
      exact lt_of_mem_absorb r _ (h r List.mem_cons_self)
        (ih fun s hs => h s (List.mem_cons_of_mem r hs))

theorem covers_coalesce {rs : List (Nat × Nat)} {n : Nat} (h : ∀ r ∈ rs, r.1 ≤ r.2)
    (hs : rs.Pairwise fun r s => r.1 ≤ s.1) : Covers (coalesce rs) n ↔ Covers rs n := by
  induction rs with
  | nil => rfl
  | cons r rest ih =>
    have hr := List.pairwise_cons.mp hs
    have hrest : ∀ s ∈ rest, s.1 ≤ s.2 := fun s hs => h s (List.mem_cons_of_mem r hs)
    rw [covers_cons, ← ih hrest hr.2]
    exact covers_absorb (le_of_mem_coalesce hr.1) (ascending_coalesce hrest)

/-- The ranges behind a range end behind it. -/
theorem Ascending.succ_le_of_mem {r : Nat × Nat} {rest : List (Nat × Nat)}
    (h : Ascending (r :: rest)) : ∀ s ∈ rest, r.2 + 1 ≤ s.2 + 1 := by
  intro s hmem
  have := (List.pairwise_cons.mp h.2).1 s hmem
  have := h.1 s (List.mem_cons_of_mem r hmem)
  omega

theorem le_of_mem_gaps {start last : Nat} {rs : List (Nat × Nat)}
    (h : Ascending rs) (hs : ∀ r ∈ rs, start ≤ r.2 + 1) :
    ∀ g ∈ gaps start last rs, start ≤ g.1 := by
  induction rs generalizing start with
  | nil =>
    unfold gaps
    split <;> simp
  | cons r rest ih =>
    have hr := hs r List.mem_cons_self
    unfold gaps
    split
    · intro g hg
      rcases List.mem_cons.mp hg with rfl | hg
      · exact Nat.le_refl _
      · exact Nat.le_trans hr (ih h.tail h.succ_le_of_mem g hg)
    · intro g hg
      exact Nat.le_trans hr (ih h.tail h.succ_le_of_mem g hg)

theorem ascending_gaps {start last : Nat} {rs : List (Nat × Nat)} (h : Ascending rs) :
    Ascending (gaps start last rs) := by
  induction rs generalizing start with
  | nil =>
    unfold gaps
    split
    · rename_i hle
      exact ⟨by simpa using hle, by simp⟩
    · exact ⟨by simp, by simp⟩
  | cons r rest ih =>
    have hlen := h.1 r List.mem_cons_self
    unfold gaps
    split
    · rename_i hlt
      refine ⟨fun g hg => ?_, List.pairwise_cons.mpr ⟨fun g hg => ?_, (ih h.tail).2⟩⟩
      · rcases List.mem_cons.mp hg with rfl | hg
        · simp only
          omega
        · exact (ih h.tail).1 g hg
      · have := le_of_mem_gaps h.tail h.succ_le_of_mem g hg
        simp only
        omega
    · exact ih h.tail

theorem covers_gaps {start last n : Nat} {rs : List (Nat × Nat)} (h : Ascending rs)
    (hrs : ∀ r ∈ rs, start ≤ r.2 + 1) :
    Covers (gaps start last rs) n ∧ n ≤ last ↔ (start ≤ n ∧ n ≤ last) ∧ ¬Covers rs n := by
  induction rs generalizing start with
  | nil =>
    unfold gaps
    split
    · simp [Covers]
    · simp [Covers]
      omega
  | cons r rest ih =>
    have hlen := h.1 r List.mem_cons_self
    have hr := hrs r List.mem_cons_self
    have hafter : Covers rest n → r.2 + 1 < n := by
      rintro ⟨s, hmem, hle, _⟩
      have := (List.pairwise_cons.mp h.2).1 s hmem
      omega
    have ih' := ih h.tail h.succ_le_of_mem
    unfold gaps
    split
    · rw [covers_cons, covers_cons, or_and_right, ih']
      simp only
      by_cases hc : Covers rest n
      · have := hafter hc
        simp only [hc, not_true_eq_false, and_false, or_false, or_true, iff_false]
        omega
      · simp only [hc, not_false_eq_true, and_true, or_false]
        omega
    · rw [covers_cons, ih']
      by_cases hc : Covers rest n
      · simp [hc]
      · simp only [hc, not_false_eq_true, and_true, or_false]
        omega

/-! ## Sets -/

/-- A set of characters. -/
structure CharSet where
  ranges : List (Nat × Nat)
  ascending : Ascending ranges

namespace CharSet

/-- Whether a code point lies in a set. -/
def covers (a : CharSet) (n : Nat) : Bool :=
  a.ranges.any fun r => r.1 ≤ n && n ≤ r.2

/-- Whether a character is a member. -/
def contains (a : CharSet) (c : Char) : Bool :=
  a.covers c.toNat

/-- The set without members. -/
def empty : CharSet := ⟨[], by simp [Ascending]⟩

/-- Whether a set has no members. -/
def isEmpty (a : CharSet) : Bool :=
  a.ranges.isEmpty

/-- The characters that one of some ranges covers. -/
def ofRanges (rs : List (Nat × Nat)) : CharSet :=
  let sorted := (rs.filter fun r => r.1 ≤ r.2).mergeSort fun r s => decide (r.1 ≤ s.1)
  ⟨coalesce sorted, ascending_coalesce fun r hr => by
    simpa using (List.mem_filter.mp ((List.mergeSort_perm _ _).mem_iff.mp hr)).2⟩

/-- The characters in either set. -/
def union (a b : CharSet) : CharSet :=
  ⟨coalesce (a.ranges.merge b.ranges fun r s => decide (r.1 ≤ s.1)),
    ascending_coalesce fun r hr => by
      rcases List.mem_merge.mp hr with hr | hr
      · exact a.ascending.1 r hr
      · exact b.ascending.1 r hr⟩

/-- The code points that are no characters. -/
def surrogates : CharSet := ⟨[(0xD800, 0xDFFF)], by simp [Ascending]⟩

/-- All other characters. -/
def compl (a : CharSet) : CharSet :=
  ⟨gaps 0 0x10FFFF (a.union surrogates).ranges, ascending_gaps (a.union surrogates).ascending⟩

/-- The characters in the first set alone. -/
def diff (a b : CharSet) : CharSet :=
  (a.compl.union b).compl

/-- The characters in both sets. -/
def inter (a b : CharSet) : CharSet :=
  a.diff b.compl

/-- The characters in one of two sets, but not in both. -/
def symmDiff (a b : CharSet) : CharSet :=
  (a.diff b).union (b.diff a)

/-- The characters in one of some sets. -/
def unionAll (sets : List CharSet) : CharSet :=
  ofRanges (sets.flatMap ranges)

/-- All characters. -/
def all : CharSet := empty.compl

/-- The characters of one range. -/
def range (low high : Char) : CharSet :=
  (ofRanges [(low.toNat, high.toNat)]).inter all

/-- One character. -/
def single (c : Char) : CharSet :=
  ofRanges [(c.toNat, c.toNat)]

/-! ## Sets written in rows -/

/-- The range `41-5A` of code points, which may be one code point alone. -/
def span? (word : List Char) : Option (Nat × Nat) := do
  match Text.splitOnce? '-' word with
  | some (low, high) =>
    return (← Decimal.natOfDigitsBase 16 low, ← Decimal.natOfDigitsBase 16 high)
  | none =>
    let n ← Decimal.natOfDigitsBase 16 word
    return (n, n)

/-- The ranges of one word of a row. -/
def ofWord (word : List Char) : List (Nat × Nat) :=
  match Text.splitOnce? '/' word with
  | some (word, _) =>
    match span? word with
    | some (low, high) =>
      (List.range ((high - low) / 2 + 1)).map fun i => (low + 2 * i, low + 2 * i)
    | none => []
  | none => (span? word).toList

/-- The set that is written in some rows. -/
def ofRows (rows : List String) : CharSet :=
  ofRanges (rows.flatMap fun row => (Text.splitOn ' ' row.toList).flatMap ofWord)

/-! ## Laws -/

theorem contains_iff {a : CharSet} {c : Char} : a.contains c ↔ Covers a.ranges c.toNat := by
  simp [contains, covers, Covers]

theorem contains_union (a b : CharSet) (c : Char) :
    (a.union b).contains c = (a.contains c || b.contains c) := by
  rw [Bool.eq_iff_iff, Bool.or_eq_true, contains_iff, contains_iff, contains_iff]
  have hle : ∀ r ∈ a.ranges.merge b.ranges fun r s => decide (r.1 ≤ s.1), r.1 ≤ r.2 := by
    intro r hr
    rcases List.mem_merge.mp hr with hr | hr
    · exact a.ascending.1 r hr
    · exact b.ascending.1 r hr
  have hsorted (s : CharSet) : s.ranges.Pairwise fun r s => decide (r.1 ≤ s.1) = true := by
    refine s.ascending.2.imp_of_mem fun {r t} hr _ h => ?_
    have := s.ascending.1 r hr
    simp only [decide_eq_true_eq]
    omega
  have hmerge := List.pairwise_merge (by simp only [decide_eq_true_eq]; omega)
    (by simp only [Bool.or_eq_true, decide_eq_true_eq]; omega) _ _ (hsorted a) (hsorted b)
  refine (covers_coalesce hle (hmerge.imp fun h => by simpa using h)).trans ?_
  simp [Covers, List.mem_merge, or_and_right, exists_or]

theorem contains_compl (a : CharSet) (c : Char) : a.compl.contains c = !a.contains c := by
  have hchar : c.toNat < 0xD800 ∨ (0xDFFF < c.toNat ∧ c.toNat < 0x110000) := by
    have := c.valid
    simpa [UInt32.isValidChar, Nat.isValidChar] using this
  have hsurrogate : surrogates.contains c = false := by
    simp [contains, covers, surrogates]
    omega
  have hgaps : Covers a.compl.ranges c.toNat ∧ c.toNat ≤ 0x10FFFF ↔
      (0 ≤ c.toNat ∧ c.toNat ≤ 0x10FFFF) ∧ ¬Covers (a.union surrogates).ranges c.toNat :=
    covers_gaps (a.union surrogates).ascending fun r _ => Nat.zero_le (r.2 + 1)
  have hunion := contains_union a surrogates c
  rw [hsurrogate, Bool.or_false] at hunion
  rw [Bool.eq_iff_iff, Bool.not_eq_true', ← Bool.not_eq_true, ← hunion, contains_iff,
    contains_iff]
  have hlast : c.toNat ≤ 0x10FFFF := by omega
  simpa only [hlast, Nat.zero_le, true_and, and_true] using hgaps

theorem contains_diff (a b : CharSet) (c : Char) :
    (a.diff b).contains c = (a.contains c && !b.contains c) := by
  simp [diff, contains_compl, contains_union]

theorem contains_inter (a b : CharSet) (c : Char) :
    (a.inter b).contains c = (a.contains c && b.contains c) := by
  simp [inter, contains_diff, contains_compl]

theorem contains_ofRanges (rs : List (Nat × Nat)) (c : Char) :
    (ofRanges rs).contains c ↔ Covers rs c.toNat := by
  let kept := rs.filter fun r => r.1 ≤ r.2
  have hperm : (kept.mergeSort fun r s => decide (r.1 ≤ s.1)).Perm kept := List.mergeSort_perm _ _
  have hle : ∀ r ∈ kept.mergeSort fun r s => decide (r.1 ≤ s.1), r.1 ≤ r.2 := fun r hr => by
    simpa using (List.mem_filter.mp (hperm.mem_iff.mp hr)).2
  have hsorted : (kept.mergeSort fun r s => decide (r.1 ≤ s.1)).Pairwise
      fun r s => decide (r.1 ≤ s.1) = true :=
    List.pairwise_mergeSort (by simp only [decide_eq_true_eq]; omega)
      (by simp only [Bool.or_eq_true, decide_eq_true_eq]; omega) kept
  rw [contains_iff]
  refine (covers_coalesce hle (hsorted.imp fun h => by simpa using h)).trans ?_
  constructor
  · rintro ⟨r, hr, h⟩
    exact ⟨r, (List.mem_filter.mp (hperm.mem_iff.mp hr)).1, h⟩
  · rintro ⟨r, hr, h⟩
    have hr' : r ∈ kept := List.mem_filter.mpr ⟨hr, by simp only [decide_eq_true_eq]; omega⟩
    exact ⟨r, hperm.mem_iff.mpr hr', h⟩

theorem contains_unionAll (sets : List CharSet) (c : Char) :
    (unionAll sets).contains c ↔ ∃ a ∈ sets, a.contains c := by
  rw [unionAll, contains_ofRanges]
  simp only [contains_iff, Covers, List.mem_flatMap]
  constructor
  · rintro ⟨r, ⟨a, ha, hr⟩, h⟩
    exact ⟨a, ha, r, hr, h⟩
  · rintro ⟨a, ha, r, hr, h⟩
    exact ⟨r, ⟨a, ha, hr⟩, h⟩

end CharSet

end Casebook.Unicode
