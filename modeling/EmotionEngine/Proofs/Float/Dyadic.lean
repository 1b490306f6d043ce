import EmotionEngine.Proofs.Float.Nearest

/-!
The real number of a dyadic. Its arithmetic is exact (`toReal_add`, `toReal_mul`, `toReal_ofInt`) and its
comparisons are those of the real numbers (`cmpMag_gt`, `cmpMag_lt`, `cmpMag_eq`).
-/

namespace EmotionEngine

open Rounding

theorem twoPow_eq (n : ℕ) : twoPow n = 2 ^ n := rfl

theorem cast_twoPow (n : ℕ) : ((twoPow n : ℕ) : ℝ) = 2 ^ n := Nat.cast_pow 2 n

namespace Dyadic

noncomputable def magnitude (x : Dyadic) : ℝ := (x.mant * 2 ^ x.exp : ℚ)

noncomputable def toReal (x : Dyadic) : ℝ := if x.neg then -x.magnitude else x.magnitude

variable (x y : Dyadic)

theorem magnitude_eq : x.magnitude = x.mant * 2 ^ x.exp := by
  unfold magnitude
  push_cast
  rfl

theorem magnitude_nonneg : 0 ≤ x.magnitude := by
  rw [magnitude_eq]
  exact mul_nonneg (Nat.cast_nonneg _) (two_zpow_pos _).le

theorem abs_toReal : |x.toReal| = x.magnitude := by
  unfold toReal
  split
  · rw [abs_neg, abs_of_nonneg x.magnitude_nonneg]
  · exact abs_of_nonneg x.magnitude_nonneg

/-! ## Zero and signs -/

theorem isZero_iff : x.isZero = true ↔ x.toReal = 0 := by
  rw [← abs_eq_zero, abs_toReal, magnitude_eq, mul_eq_zero, Nat.cast_eq_zero]
  simp [isZero, (two_zpow_pos x.exp).ne']

theorem isZero_false_iff : x.isZero = false ↔ x.toReal ≠ 0 := by
  rw [← Bool.not_eq_true, isZero_iff]

theorem neg_iff {x : Dyadic} (nonzero : x.toReal ≠ 0) : x.neg = true ↔ x.toReal < 0 := by
  have positive : 0 < x.magnitude := by
    rw [← abs_toReal]
    exact abs_pos.2 nonzero
  unfold toReal
  cases x.neg with
  | true => simpa using positive
  | false => simpa using positive.le

/-! ## Arithmetic -/

variable {x y} in
theorem cast_scaled {e : ℤ} (le : e ≤ x.exp) : (x.scaled e : ℝ) * 2 ^ e = x.magnitude := by
  have shift : ((x.exp - e).toNat : ℤ) = x.exp - e := Int.toNat_of_nonneg (by omega)
  rw [scaled, Nat.cast_mul, cast_twoPow, ← zpow_natCast, shift, mul_assoc, ← two_zpow_add, sub_add_cancel, magnitude_eq]

variable {x y} in
theorem cast_signedScaled {e : ℤ} (le : e ≤ x.exp) : (x.signedScaled e : ℝ) * 2 ^ e = x.toReal := by
  unfold signedScaled toReal
  split
  · rw [Int.cast_neg, Int.cast_natCast, neg_mul, cast_scaled le]
  · rw [Int.cast_natCast, cast_scaled le]

theorem toReal_negate : x.negate.toReal = -x.toReal := by
  unfold toReal negate
  simp only [magnitude_eq]
  cases x.neg <;> simp

/-- An integer mantissa, where the sign of zero does not matter. -/
theorem toReal_natAbs {neg : Bool} {s e : ℤ} (sign : s ≠ 0 → (neg = true ↔ s < 0)) :
    toReal { neg, mant := s.natAbs, exp := e } = s * 2 ^ e := by
  have size : ((s.natAbs : ℕ) : ℝ) = |(s : ℝ)| := by rw [← Int.cast_natCast, Int.natCast_natAbs, Int.cast_abs]
  unfold toReal
  simp only [magnitude_eq]
  rw [size]
  rcases lt_trichotomy s 0 with below | zero | above
  · rw [if_pos ((sign below.ne).2 below), abs_of_neg (Int.cast_lt_zero.2 below)]
    ring
  · simp [zero]
  · rw [if_neg fun negative => above.not_gt ((sign above.ne').1 negative), abs_of_pos (Int.cast_pos.2 above)]

theorem toReal_add : (x.add y).toReal = x.toReal + y.toReal := by
  have sign (s : ℤ) (nonzero : s ≠ 0) : (if s = 0 then x.neg && y.neg else decide (s < 0)) = true ↔ s < 0 := by
    rw [if_neg nonzero, decide_eq_true_eq]
  rw [add, toReal_natAbs (sign _), Int.cast_add, add_mul, cast_signedScaled (min_le_left _ _),
    cast_signedScaled (min_le_right _ _)]

theorem toReal_ofInt (i : ℤ) : (ofInt i).toReal = i := by
  rw [ofInt, toReal_natAbs fun _ => decide_eq_true_iff, zpow_zero, mul_one]

theorem toReal_mul : (x.mul y).toReal = x.toReal * y.toReal := by
  have product : (x.mul y).magnitude = x.magnitude * y.magnitude := by
    unfold mul
    simp only [magnitude_eq]
    rw [Nat.cast_mul, two_zpow_add]
    ring
  unfold toReal
  rw [product]
  unfold mul
  cases x.neg <;> cases y.neg <;> simp

/-! ## Comparisons -/

variable {x y} in
theorem cmpMag_scaled : ∃ m n : ℕ, x.cmpMag y = compare m n ∧
    |x.toReal| = m * 2 ^ min x.exp y.exp ∧ |y.toReal| = n * 2 ^ min x.exp y.exp :=
  ⟨_, _, rfl, by rw [cast_scaled (min_le_left _ _), abs_toReal], by rw [cast_scaled (min_le_right _ _), abs_toReal]⟩

theorem cmpMag_gt : x.cmpMag y = .gt ↔ |y.toReal| < |x.toReal| := by
  obtain ⟨m, n, compared, hx, hy⟩ := cmpMag_scaled (x := x) (y := y)
  rw [compared, hx, hy, Nat.compare_eq_gt, mul_lt_mul_iff_left₀ (two_zpow_pos _), Nat.cast_lt]

theorem cmpMag_lt : x.cmpMag y = .lt ↔ |x.toReal| < |y.toReal| := by
  obtain ⟨m, n, compared, hx, hy⟩ := cmpMag_scaled (x := x) (y := y)
  rw [compared, hx, hy, Nat.compare_eq_lt, mul_lt_mul_iff_left₀ (two_zpow_pos _), Nat.cast_lt]

theorem cmpMag_eq : x.cmpMag y = .eq ↔ |x.toReal| = |y.toReal| := by
  obtain ⟨m, n, compared, hx, hy⟩ := cmpMag_scaled (x := x) (y := y)
  rw [compared, hx, hy, Nat.compare_eq_eq, mul_left_inj' (two_zpow_pos _).ne', Nat.cast_inj]

end Dyadic

end EmotionEngine
