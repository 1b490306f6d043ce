import EmotionEngine.Float.Single
import EmotionEngine.Proofs.Float.Round

/-!
Single-precision patterns as numbers.

1. `val` is the rational number that a pattern is read as. `Single.value` is that number (`toReal_value`), and it has
   24 bits (`fits_val`).
2. Without its sign, a pattern of a normal number counts the normal numbers in their order: `scale n` is the number
   of pattern `n`, and it is strictly monotone, across the ends of the exponents as well (`scale_strictMono`).
3. `signed neg n` is the pattern with a sign, and what the fields of it are.
-/

namespace EmotionEngine.Single

open Rounding

def maxMagnitude : ℚ := (2 ^ 24 - 1) * 2 ^ 104

def minMagnitude : ℚ := 1 / 2 ^ 126

/-- The rational number that a pattern is read as: the largest exponent reads as the largest magnitude, and exponent
zero as zero. -/
def val (b : Word) : ℚ :=
  let magnitude : ℚ :=
    if exponent b = 255 then maxMagnitude
    else if exponent b = 0 then 0
    else (2 ^ 23 + fraction b) * 2 ^ ((exponent b : ℤ) - 150)
  if b.msb then -magnitude else magnitude

/-! ## Patterns without a sign -/

/-- The number of the pattern `n`, as if it had a hidden bit. -/
noncomputable def scale (n : ℕ) : ℝ := ((2 ^ 23 + n % 2 ^ 23 : ℕ) * 2 ^ (((n / 2 ^ 23 : ℕ) : ℤ) - 150) : ℚ)

theorem scale_eq (n : ℕ) : scale n = (2 ^ 23 + n % 2 ^ 23 : ℕ) * 2 ^ (((n / 2 ^ 23 : ℕ) : ℤ) - 150) := by
  unfold scale
  rw [Rat.cast_mul, Rat.cast_natCast, Rat.cast_zpow, Rat.cast_ofNat]

theorem scale_lt_succ (n : ℕ) : scale n < scale (n + 1) := by
  rw [scale_eq, scale_eq]
  by_cases last : n % 2 ^ 23 = 2 ^ 23 - 1
  · -- The next pattern starts an exponent.
    rw [show (n + 1) % 2 ^ 23 = 0 by omega, show (n + 1) / 2 ^ 23 = n / 2 ^ 23 + 1 by omega, last]
    generalize n / 2 ^ 23 = e
    have unit := two_zpow_pos ((e : ℤ) - 150)
    rw [show ((e + 1 : ℕ) : ℤ) - 150 = (e : ℤ) - 150 + 1 by push_cast; ring, two_zpow_add _ 1]
    norm_num
    linarith
  · rw [show (n + 1) % 2 ^ 23 = n % 2 ^ 23 + 1 by omega, show (n + 1) / 2 ^ 23 = n / 2 ^ 23 by omega]
    refine mul_lt_mul_of_pos_right ?_ (two_zpow_pos _)
    exact_mod_cast (by omega : 2 ^ 23 + n % 2 ^ 23 < 2 ^ 23 + (n % 2 ^ 23 + 1))

theorem scale_strictMono : StrictMono scale := strictMono_nat_of_lt_succ scale_lt_succ

theorem fits_scale (n : ℕ) : Fits 24 (scale n) := by
  refine ⟨(2 ^ 23 + n % 2 ^ 23 : ℕ), _, ?_, by rw [scale_eq]; push_cast; rfl⟩
  rw [Nat.abs_cast]
  have := Nat.mod_lt n (show 0 < 2 ^ 23 by decide)
  exact_mod_cast (by omega : 2 ^ 23 + n % 2 ^ 23 < 2 ^ 24)

theorem scale_pos (n : ℕ) : 0 < scale n := by
  rw [scale_eq]
  exact mul_pos (by positivity) (two_zpow_pos _)

/-! ## Patterns with a sign -/

def signed (neg : Bool) (n : ℕ) : Word := zero neg ||| BitVec.ofNat 32 n

section
variable {neg : Bool} {n : ℕ}

theorem toNat_signed (small : n < 2 ^ 31) : (signed neg n).toNat = neg.toNat * 2 ^ 31 + n := by
  have word : n % 2 ^ 32 = n := Nat.mod_eq_of_lt (by omega)
  unfold signed zero signBit
  rw [BitVec.toNat_or, BitVec.toNat_ofNat, word]
  cases neg with
  | false => simp
  | true => exact (Nat.two_pow_add_eq_or_of_lt small 1).symm

theorem msb_signed (small : n < 2 ^ 31) : (signed neg n).msb = neg := by
  rw [BitVec.msb_eq_decide, toNat_signed small]
  cases neg with
  | false => exact decide_eq_false (by simp only [Bool.toNat_false]; omega)
  | true => exact decide_eq_true (by simp only [Bool.toNat_true]; omega)

theorem exponent_signed (small : n < 2 ^ 31) : exponent (signed neg n) = n / 2 ^ 23 := by
  rw [exponent, toNat_signed small]
  show (neg.toNat * 2 ^ 31 + n) / 2 ^ 23 % 256 = n / 2 ^ 23
  cases neg <;> simp only [Bool.toNat_true, Bool.toNat_false] <;> omega

theorem fraction_signed (small : n < 2 ^ 31) : fraction (signed neg n) = n % 2 ^ 23 := by
  rw [fraction, toNat_signed small]
  show (neg.toNat * 2 ^ 31 + n) % 2 ^ 23 = n % 2 ^ 23
  cases neg <;> simp only [Bool.toNat_true, Bool.toNat_false] <;> omega

theorem eq_signed (b : Word) : b = signed b.msb (b.toNat % 2 ^ 31) := by
  have word := b.isLt
  refine BitVec.eq_of_toNat_eq ?_
  rw [toNat_signed (Nat.mod_lt _ (by decide)), BitVec.msb_eq_decide]
  by_cases high : 2 ^ 31 ≤ b.toNat
  · simp only [high, decide_true, Bool.toNat_true]
    omega
  · simp only [high, decide_false, Bool.toNat_false]
    omega

theorem and_signBit (b : Word) : b &&& signBit = zero b.msb := by
  have bit : signBit = BitVec.twoPow 32 31 := by decide
  rw [bit, BitVec.and_twoPow, ← BitVec.msb_eq_getLsbD_last]
  unfold zero
  rw [bit]
  rfl

/-- Whether a pattern is of a normal number. -/
def Normal (n : ℕ) : Prop := 2 ^ 23 ≤ n ∧ n < 255 * 2 ^ 23

theorem Normal.small (normal : Normal n) : n < 2 ^ 31 := by
  have := normal.2
  omega

theorem val_signed (normal : Normal n) : ((val (signed neg n) : ℚ) : ℝ) = if neg then -scale n else scale n := by
  have small := normal.small
  have notMax : n / 2 ^ 23 ≠ 255 := by have := normal.2; omega
  have notZero : n / 2 ^ 23 ≠ 0 := by have := normal.1; omega
  rw [scale_eq, val]
  rw [msb_signed small, exponent_signed small, fraction_signed small, if_neg notMax, if_neg notZero]
  generalize n / 2 ^ 23 = e
  cases neg <;> norm_num

theorem abs_val_signed (normal : Normal n) : |((val (signed neg n) : ℚ) : ℝ)| = scale n := by
  rw [val_signed normal]
  split
  · rw [abs_neg, abs_of_pos (scale_pos n)]
  · exact abs_of_pos (scale_pos n)

end

theorem normal_max : Normal (255 * 2 ^ 23 - 1) := ⟨by decide, by decide⟩

theorem scale_min : scale (2 ^ 23) = (minMagnitude : ℚ) := by
  rw [scale_eq, minMagnitude]
  norm_num

theorem scale_max : scale (255 * 2 ^ 23 - 1) = (maxMagnitude : ℚ) := by
  rw [scale_eq, maxMagnitude]
  norm_num

/-! ## What a pattern is read as -/

theorem normalize_max {b : Word} (e : exponent b = 255) : normalize b = signed b.msb (255 * 2 ^ 23 - 1) := by
  rw [normalize, if_pos e, and_signBit]
  rfl

theorem normalize_zero {b : Word} (e : exponent b = 0) : normalize b = signed b.msb 0 := by
  rw [normalize, if_neg (by omega), if_pos e, and_signBit, signed]
  exact (BitVec.or_zero).symm

def dyadic (neg : Bool) (n : ℕ) : Dyadic := { neg, mant := 2 ^ 23 + n % 2 ^ 23, exp := ((n / 2 ^ 23 : ℕ) : ℤ) - 150 }

theorem toReal_dyadic (neg : Bool) (n : ℕ) : (dyadic neg n).toReal = if neg then -scale n else scale n := rfl

theorem value_of_normalize {b : Word} {neg : Bool} {n : ℕ} (normal : Normal n) (same : normalize b = signed neg n) :
    value b = dyadic neg n := by
  have small := normal.small
  have notZero : n / 2 ^ 23 ≠ 0 := by have := normal.1; omega
  unfold value dyadic
  dsimp only
  rw [same, msb_signed small, exponent_signed small, fraction_signed small, if_neg notZero]
  rfl

theorem value_cases (b : Word) : (exponent b = 0 ∧ (value b).mant = 0 ∧ val b = 0) ∨
    ∃ n, exponent b ≠ 0 ∧ Normal n ∧ value b = dyadic b.msb n ∧
      ((val b : ℚ) : ℝ) = if b.msb then -scale n else scale n := by
  by_cases zero : exponent b = 0
  · refine .inl ⟨zero, ?_, ?_⟩
    · unfold value
      dsimp only
      rw [normalize_zero zero, exponent_signed (by decide)]
      rfl
    · simp [val, zero]
  · by_cases top : exponent b = 255
    · refine .inr ⟨_, zero, normal_max, value_of_normalize normal_max (normalize_max top), ?_⟩
      rw [scale_max]
      simp only [val, top]
      split <;> simp
    · have high : exponent b < 256 := Nat.mod_lt _ (by decide)
      have small : b.toNat % 2 ^ 31 < 2 ^ 31 := Nat.mod_lt _ (by decide)
      have place : exponent b = b.toNat % 2 ^ 31 / 2 ^ 23 := by
        conv => lhs; rw [eq_signed b, exponent_signed small]
      have normal : Normal (b.toNat % 2 ^ 31) := ⟨by omega, by omega⟩
      refine .inr ⟨_, zero, normal, value_of_normalize normal ?_, ?_⟩
      · rw [normalize, if_neg top, if_neg zero]
        exact eq_signed b
      · rw [← val_signed normal, ← eq_signed]

/-- A pattern is read as its number. -/
theorem toReal_value (b : Word) : (value b).toReal = (val b : ℚ) := by
  rcases value_cases b with ⟨-, zero, same⟩ | ⟨n, -, -, dyadic, same⟩
  · rw [same, Rat.cast_zero, ← Dyadic.isZero_iff, Dyadic.isZero, zero]
    rfl
  · rw [same, dyadic, toReal_dyadic]

theorem fits_val (b : Word) : Fits 24 ((val b : ℚ) : ℝ) := by
  rcases value_cases b with ⟨-, -, same⟩ | ⟨n, -, -, -, same⟩
  · rw [same, Rat.cast_zero]
    exact .zero 24
  · rw [same]
    split
    · exact (fits_scale n).neg
    · exact fits_scale n

theorem isZero_pattern (b : Word) : isZero b = true ↔ val b = 0 := by
  rw [isZero, beq_iff_eq]
  rcases value_cases b with ⟨zero, -, same⟩ | ⟨n, nonzero, -, -, same⟩
  · simp [zero, same]
  · have positive := scale_pos n
    refine ⟨fun zero => absurd zero nonzero, fun zero => ?_⟩
    rw [zero, Rat.cast_zero] at same
    split at same <;> linarith

/-- The mantissa of a number that is not zero has 24 bits. -/
theorem mant_value {b : Word} (nonzero : val b ≠ 0) : 2 ^ 23 ≤ (value b).mant ∧ (value b).mant < 2 ^ 24 := by
  rcases value_cases b with ⟨-, -, same⟩ | ⟨n, -, -, dyadic, -⟩
  · exact absurd same nonzero
  · have := Nat.mod_lt n (show 0 < 2 ^ 23 by decide)
    rw [dyadic]
    exact ⟨Nat.le_add_right _ _, by show 2 ^ 23 + n % 2 ^ 23 < 2 ^ 24; omega⟩

end EmotionEngine.Single
