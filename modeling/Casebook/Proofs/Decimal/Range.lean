import Casebook.Decimal.Reading
import Mathlib

/-!
# The range of floating point numbers

An integer of many digits is read as the nearest floating point number of 53 binary digits, of which
the largest is `(2 ^ 53 - 1) * 2 ^ 971`. The integers that lie nearer to that than to `2 ^ 1024` are
read as finite; an integer half way between the two or beyond is not (`isFinite_nearest`).

The proof follows the rounding. An integer with leading binary digit `2 ^ L` is shifted by as many
places as leave 53 digits; the first digit that is shifted out rounds the others up if it is
followed by another one or if they are odd. Only for all 53 digits set does this give a 54th.
-/

namespace Casebook.Decimal

open Float.Model UnpackedFloat

/-! ## Shifting out digits -/

/-- What is left and what was shifted out, once a mantissa was shifted. -/
theorem shiftRight_succ (m k : ℕ) :
    (⟨m, false, false⟩ : ExtendedMantissa) >>> (k + 1) =
      ⟨m / 2 ^ k / 2, m / 2 ^ k % 2 != 0, m % 2 ^ k != 0⟩ := by
  induction k with
  | zero =>
    simp [HShiftRight.hShiftRight, Nat.repeat, ExtendedMantissa.shiftRightOne, Nat.mod_one]
  | succ k ih =>
    have hstep (em : ExtendedMantissa) (k : ℕ) : em >>> (k + 1) = (em >>> k).shiftRightOne := rfl
    have hmod : (m % 2 ^ (k + 1) != 0) = ((m / 2 ^ k % 2 != 0) || (m % 2 ^ k != 0)) := by
      have hsum : m % 2 ^ (k + 1) = m % 2 ^ k + 2 ^ k * (m / 2 ^ k % 2) := by
        rw [Nat.pow_succ, Nat.mod_mul]
      rw [Bool.eq_iff_iff, hsum]
      simp
      omega
    have hdiv : m / 2 ^ (k + 1) = m / 2 ^ k / 2 := by
      rw [Nat.pow_succ, Nat.div_div_eq_div_mul]
    rw [hstep, ih, ExtendedMantissa.shiftRightOne, hmod, hdiv]

theorem mantissa_shiftRight (m k : ℕ) :
    ((⟨m, false, false⟩ : ExtendedMantissa) >>> k).mantissa = m / 2 ^ k := by
  cases k with
  | zero => simp [HShiftRight.hShiftRight, Nat.repeat]
  | succ k => rw [shiftRight_succ, Nat.div_div_eq_div_mul, Nat.pow_succ]

/-- Fifty-three digits stay as many when they are rounded, unless all of them are set and so is the
first digit behind them. -/
theorem roundedMantissa_shiftRight {m k : ℕ} (hlow : 2 ^ 53 ≤ m / 2 ^ k)
    (hhigh : m / 2 ^ k < 2 ^ 54) :
    let r := ((⟨m, false, false⟩ : ExtendedMantissa) >>> (k + 1)).roundedMantissa
    2 ^ 52 ≤ r ∧ if m / 2 ^ k = 2 ^ 54 - 1 then r = 2 ^ 53 else r < 2 ^ 53 := by
  rw [shiftRight_succ]
  generalize m / 2 ^ k = h at hlow hhigh ⊢
  simp only [ExtendedMantissa.roundedMantissa]
  by_cases hodd : h % 2 = 0
  · -- The first digit behind them is not set, so they are rounded down.
    have hround (sticky : Bool) : Accuracy.roundToNearestEven (h / 2)
        (ExtendedMantissa.accuracy ⟨h / 2, h % 2 != 0, sticky⟩) = h / 2 := by
      rw [hodd]
      cases sticky <;> rfl
    rw [hround, if_neg (by omega)]
    omega
  · have hset : (h % 2 != 0) = true := by simpa using hodd
    have hround (sticky : Bool) : Accuracy.roundToNearestEven (h / 2)
        (ExtendedMantissa.accuracy ⟨h / 2, h % 2 != 0, sticky⟩) =
          if sticky then h / 2 + 1 else h / 2 + h / 2 % 2 := by
      rw [hset]
      cases sticky <;> rfl
    rw [hround]
    split <;> split <;> omega

/-! ## Rounding to fifty-three digits -/

theorem div_two_pow_lt {n a b : ℕ} (hne : n ≠ 0) (h : n.log2 < a + b) : n / 2 ^ b < 2 ^ a := by
  rw [Nat.div_lt_iff_lt_mul (Nat.two_pow_pos b), ← Nat.pow_add]
  exact (Nat.log2_lt hne).mp h

theorem two_pow_le_div {n a b : ℕ} (hne : n ≠ 0) (h : a + b ≤ n.log2) : 2 ^ a ≤ n / 2 ^ b := by
  rw [Nat.le_div_iff_mul_le (Nat.two_pow_pos b), ← Nat.pow_add]
  exact (Nat.le_log2 hne).mp h

theorem targetExponent_eq (e : ℤ) : Format.binary64.targetExponent e = max (e - 53) (-1074) :=
  rfl

/-- By how many places a mantissa is shifted, and where it stands then. -/
theorem shiftToTargetExponent_eq {m k : ℕ} {e : ℤ}
    (hk : max ((m.log2 : ℤ) + 1 + e - 53) (-1074) = e + k) :
    shiftToTargetExponent Format.binary64 m e .exact =
      ((⟨m, false, false⟩ : ExtendedMantissa) >>> k, e + k) := by
  have hshift : (Format.binary64.targetExponent (totalExponent m e) - e).toNat = k := by
    rw [targetExponent_eq, totalExponent, hk]
    omega
  rw [shiftToTargetExponent, shiftToExponent, hshift]
  rfl

/-- Rounding shifts twice: the second time if the first made the digits one more. -/
theorem roundWithAccuracy_of_shifts {sign : Sign} {m : ℕ} {e e₁ e₂ : ℤ}
    {first second : ExtendedMantissa}
    (hfirst : shiftToTargetExponent Format.binary64 m e .exact = (first, e₁))
    (hsecond : shiftToTargetExponent Format.binary64 first.roundedMantissa e₁ .exact = (second, e₂))
    (hne : second.mantissa ≠ 0) :
    roundWithAccuracy Format.binary64 sign m e .exact =
      .finite sign second.mantissa e₂ (Nat.pos_of_ne_zero hne) := by
  simp only [roundWithAccuracy, hfirst, hsecond, dif_neg hne]

/-- A mantissa with more digits than fit is rounded to fifty-three; the last of them stands one
place higher if they became one more. -/
theorem exists_roundWithAccuracy_eq (sign : Sign) {m k : ℕ} {e : ℤ} (hm : m.log2 = 53 + k)
    (he : -1074 ≤ e) :
    ∃ m' hm', roundWithAccuracy Format.binary64 sign m e .exact =
      .finite sign m' (e + (k + 1) + if m / 2 ^ k = 2 ^ 54 - 1 then 1 else 0) hm' := by
  have hne : m ≠ 0 := by
    rintro rfl
    simp at hm
    omega
  have hquotlow : 2 ^ 53 ≤ m / 2 ^ k := two_pow_le_div hne hm.ge
  have hquothigh : m / 2 ^ k < 2 ^ 54 := div_two_pow_lt hne (by omega)
  obtain ⟨hrlow, hcarry⟩ := roundedMantissa_shiftRight hquotlow hquothigh
  have hfirst := shiftToTargetExponent_eq (m := m) (k := k + 1) (e := e) (by omega)
  generalize hr : (⟨m, false, false⟩ : ExtendedMantissa) >>> (k + 1) = first at *
  have hsecond (j : ℕ) (hj : first.roundedMantissa.log2 = 52 + j) :=
    shiftToTargetExponent_eq (m := first.roundedMantissa) (k := j) (e := e + ↑(k + 1)) (by omega)
  have hkept (j : ℕ) (hj : 2 ^ j ≤ first.roundedMantissa) :
      ((⟨first.roundedMantissa, false, false⟩ : ExtendedMantissa) >>> j).mantissa ≠ 0 := by
    rw [mantissa_shiftRight]
    exact (Nat.div_pos hj (Nat.two_pow_pos j)).ne'
  by_cases hall : m / 2 ^ k = 2 ^ 54 - 1
  · rw [if_pos hall] at hcarry ⊢
    have hlog : first.roundedMantissa.log2 = 52 + 1 := by
      rw [hcarry]
      exact Nat.log2_two_pow
    exact ⟨_, _, roundWithAccuracy_of_shifts hfirst (hsecond 1 hlog) (hkept 1 (by omega))⟩
  · rw [if_neg hall] at hcarry ⊢
    have hlog : first.roundedMantissa.log2 = 52 + 0 :=
      (Nat.log2_eq_iff (by omega)).mpr ⟨hrlow, hcarry⟩
    exact ⟨_, _, roundWithAccuracy_of_shifts hfirst (hsecond 0 hlog) (hkept 0 (by omega))⟩

/-! ## Finite numbers -/

/-- A number is packed as a finite one unless its last digit stands too high. -/
def fits : UnpackedFloat → Bool
  | .notANumber => false
  | .infinity _ => false
  | .zero _ => true
  | .finite _ _ e _ => e ≤ 971

theorem isFinite_unpack_packComponents (sign : Sign) (exponent : BitVec 11) (mantissa : BitVec 52) :
    (UnpackedFloat.unpack Format.binary64
      (packComponents Format.binary64 sign exponent mantissa)).isFinite =
        decide (exponent ≠ 2047#11) := by
  have hlast : -1#11 = 2047#11 := rfl
  simp only [UnpackedFloat.unpack, unpackExponent_packComponents, unpackMantissa_packComponents,
    hlast]
  by_cases h : exponent = 2047#11
  · rw [if_pos h]
    split <;> simp [UnpackedFloat.isFinite, h]
  · rw [if_neg h]
    split
    · split <;> simp [UnpackedFloat.isFinite, h]
    · simp [UnpackedFloat.isFinite, h]

theorem isFinite_pack (u : UnpackedFloat) : (Float.Model.pack u).isFinite = fits u := by
  show (UnpackedFloat.unpack Format.binary64 (UnpackedFloat.pack Format.binary64 u)).isFinite =
    fits u
  cases u with
  | notANumber => decide
  | infinity s => cases s <;> decide
  | zero s => cases s <;> decide
  | finite s m e hm =>
    have hbias : e + ↑Format.binary64.exponentBias + (52 : ℕ) = e + 1075 := by
      rw [show Format.binary64.exponentBias = 1023 by decide]
      omega
    simp only [UnpackedFloat.pack, hbias]
    split
    · next hhigh =>
      rw [packedInfinity, isFinite_unpack_packComponents]
      have : ¬ e ≤ 971 := by omega
      simp [fits, this]
    next hlow =>
    have he : e ≤ 971 := by omega
    split
    · rw [isFinite_unpack_packComponents]
      have hne : BitVec.ofNat 11 (e + 1075).toNat ≠ 2047#11 := by
        intro heq
        have := congrArg BitVec.toNat heq
        rw [BitVec.toNat_ofNat, Nat.mod_eq_of_lt (by omega)] at this
        have hlast : (2047#11).toNat = 2047 := rfl
        omega
      simp [fits, he, hne]
    · rw [isFinite_unpack_packComponents]
      simp [fits, he]

/-- What is unpacked fits if it is finite. -/
theorem fits_unpack (x : Float.Model) : fits x.unpack = x.isFinite := by
  show fits (UnpackedFloat.unpack Format.binary64 x.toBits.toBitVec) =
    (UnpackedFloat.unpack Format.binary64 x.toBits.toBitVec).isFinite
  have hbias : (Format.binary64.exponentBias : ℤ) = 1023 := by decide
  unfold UnpackedFloat.unpack
  dsimp only
  generalize @unpackExponent Format.binary64 x.toBits.toBitVec = exponent
  split
  · split <;> rfl
  next hlast =>
  have hexponent : exponent.toNat < 2047 := by
    have hlt : exponent.toNat < 2048 := exponent.isLt
    have hne : exponent.toNat ≠ 2047 := fun heq => hlast (BitVec.eq_of_toNat_eq heq)
    omega
  split
  · split
    · rfl
    · next hzero _ =>
      subst hzero
      rfl
  · have he : (exponent.toNat : ℤ) - (↑Format.binary64.exponentBias + (52 : ℕ)) ≤ 971 := by omega
    simpa [fits, UnpackedFloat.isFinite] using he

/-- A number and its negative are finite together. -/
theorem isFinite_neg (x : Float) : (-x).isFinite = x.isFinite := by
  have hsame (u : UnpackedFloat) : fits u.neg = fits u := by cases u <;> rfl
  show (Float.Model.pack x.toModel.unpack.neg).isFinite = x.toModel.isFinite
  rw [isFinite_pack, hsame, fits_unpack]

/-! ## Integers -/

/-- The integers from here on are not read as finite numbers: this one lies half way between the
largest number and `2 ^ 1024`. -/
def overflow : ℕ :=
  (2 ^ 54 - 1) * 2 ^ 970

theorem overflow_eq : overflow = (2 ^ 54 - 1) * 2 ^ 970 :=
  rfl

-- So large a number is not to be computed where it is only mentioned.
attribute [irreducible] overflow

/-- The last digit that is kept of an integer stands too high exactly if the integer is out of
range. -/
theorem lt_overflow_iff {n : ℕ} (hn : 2 ^ 63 ≤ n) :
    (n.log2 : ℤ) - 52 + (if n / 2 ^ (n.log2 - 53) = 2 ^ 54 - 1 then 1 else 0) ≤ 971 ↔
      n < overflow := by
  have hne : n ≠ 0 := by omega
  have hpos : 0 < 2 ^ 970 := by positivity
  rw [overflow_eq, ← Nat.div_lt_iff_lt_mul hpos]
  rcases Nat.lt_trichotomy n.log2 1023 with hlt | heq | hgt
  · -- Fewer digits never reach so far.
    have hquot : n / 2 ^ 970 < 2 ^ 53 := div_two_pow_lt hne hlt
    exact iff_of_true (by split <;> omega) (by omega)
  · have hquot : n / 2 ^ 970 < 2 ^ 54 := div_two_pow_lt hne (heq ▸ Nat.lt_succ_self _)
    have hplaces : 1023 - 53 = 970 := rfl
    rw [heq, hplaces]
    split <;> omega
  · have hquot : 2 ^ 54 ≤ n / 2 ^ 970 := two_pow_le_div hne hgt
    exact iff_of_false (by split <;> omega) (by omega)

theorem isFinite_ofScientific {n : ℕ} (hn : 2 ^ 63 ≤ n) :
    (Float.ofScientific n false 0).isFinite = decide (n < overflow) := by
  have hne : n ≠ 0 := by omega
  have hmodel : Float.ofScientific n false 0 =
      ⟨Float.Model.pack (UnpackedFloat.ofScientific Format.binary64 n 0)⟩ := by
    rw [Float.ofScientific, dif_neg (by omega)]
    rfl
  have hsmallest : ¬(0 : ℤ) < -(2 ^ Format.binary64.exponentBits + n.log2) := by
    show ¬(0 : ℤ) < -(2048 + n.log2)
    omega
  have hrounded : UnpackedFloat.ofScientific Format.binary64 n 0 =
      roundWithAccuracy Format.binary64 .positive (n <<< 53 * 1) (-53 + 0) .exact := by
    rw [UnpackedFloat.ofScientific, dif_neg hne, if_neg (by decide), if_neg hsmallest,
      if_pos (Int.le_refl 0)]
    rfl
  have hlog : (n <<< 53 * 1).log2 = 53 + n.log2 := by
    obtain ⟨hlow, hhigh⟩ := (Nat.log2_eq_iff hne).mp rfl
    rw [Nat.mul_one, Nat.shiftLeft_eq, Nat.log2_eq_iff (by omega)]
    rw [Nat.add_comm 53, Nat.add_right_comm, Nat.pow_add, Nat.pow_add]
    exact ⟨Nat.mul_le_mul_right _ hlow, Nat.mul_lt_mul_of_pos_right hhigh (by decide)⟩
  have hquot : n <<< 53 * 1 / 2 ^ n.log2 = n / 2 ^ (n.log2 - 53) := by
    have hdigits : 63 ≤ n.log2 := (Nat.le_log2 hne).mpr hn
    have hsplit : n.log2 = n.log2 - 53 + 53 := by omega
    rw [Nat.mul_one, Nat.shiftLeft_eq]
    conv_lhs => rw [hsplit, Nat.pow_add]
    exact Nat.mul_div_mul_right _ _ (by decide)
  have hexponent : (-1074 : ℤ) ≤ -53 + 0 := by decide
  obtain ⟨m, hm, hfinite⟩ := exists_roundWithAccuracy_eq .positive hlog hexponent
  rw [hmodel]
  show (Float.Model.pack _).isFinite = _
  rw [isFinite_pack, hrounded, hfinite, fits, decide_eq_decide, ← lt_overflow_iff hn, hquot]
  split <;> omega

/-- An integer that a signed word does not hold is read as a finite number exactly if it is in
range. -/
theorem isFinite_nearest {n : ℕ} (hn : 2 ^ 63 ≤ n) :
    (nearest n 0).isFinite = decide (n < overflow) := by
  have hlength : (toString n).length = (Nat.toDigits 10 n).length := by
    rw [Nat.toString_eq_repr, ← String.length_toList, Nat.toList_repr]
  unfold nearest
  rw [if_neg (by omega)]
  dsimp only
  split
  · next hlong =>
    -- So many digits are out of range, whatever they are.
    have hlarge : 10 ^ 310 ≤ n := by
      by_contra hless
      have := (Nat.length_toDigits_le_iff (by decide) (by decide)).mpr (Nat.not_le.mp hless)
      omega
    have hout : overflow ≤ n := Nat.le_trans (by decide +kernel) hlarge
    rw [decide_eq_false (Nat.not_lt.mpr hout)]
    rfl
  · rw [if_neg (by omega)]
    exact isFinite_ofScientific hn

end Casebook.Decimal
