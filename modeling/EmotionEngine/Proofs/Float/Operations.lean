import EmotionEngine.Proofs.Float.Truncate

/-!
The operations on single-precision numbers.

1. Each of them rounds its exact result toward zero (`rounds_add`, `rounds_sub`, `rounds_mul`, `rounds_div`,
   `rounds_sqrt`, `rounds_ofInt`).
2. They report an overflow if the 53 bits of the result are too large, and that is so for results of more than
   `maxMagnitude + 2 ^ 74`: the tie goes to the largest magnitude, which is even (`lt_nearest_iff`). No product and no
   quotient lies between the two (`overflow_iff_of_separated`), but sums do.
3. Numbers are made integers by cutting their fractions off (`toInt_toWord`).
-/

namespace EmotionEngine.Single

open Rounding

/-! ## Overflow -/

theorem maxMagnitude_units : ((maxMagnitude : ℚ) : ℝ) = (2 ^ 53 - 2 ^ 29 : ℤ) * 2 ^ (75 : ℤ) := by
  unfold maxMagnitude
  norm_num

/-- The number of 53 bits after the largest magnitude. -/
theorem fits_beyond : Fits 53 ((maxMagnitude : ℚ) + 2 ^ (75 : ℤ)) := by
  refine ⟨2 ^ 53 - 2 ^ 29 + 1, 75, by norm_num, ?_⟩
  rw [maxMagnitude_units]
  push_cast
  ring

theorem not_fits_beyond : ¬ Fits 52 ((maxMagnitude : ℚ) + 2 ^ (75 : ℤ)) := by
  intro fits
  obtain ⟨n, same⟩ : OnGrid 76 ((maxMagnitude : ℚ) + 2 ^ (75 : ℤ)) := by
    refine fits.onGrid ?_
    unfold maxMagnitude
    norm_num
  rw [maxMagnitude_units, show (76 : ℤ) = 1 + 75 by decide, two_zpow_add 1, ← mul_assoc, ← add_one_mul,
    mul_left_inj' (two_zpow_pos 75).ne'] at same
  have parity : (2 ^ 53 - 2 ^ 29 + 1 : ℤ) = n * 2 := by exact_mod_cast same
  omega

theorem beyond_le {h : ℝ} (fits : Fits 53 h) (above : (maxMagnitude : ℚ) < h) :
    (maxMagnitude : ℚ) + 2 ^ (75 : ℤ) ≤ h := by
  have large : (2 : ℝ) ^ (((53 : ℕ) : ℤ) - 1 + 75) ≤ |h| := by
    refine le_trans ?_ (above.le.trans (le_abs_self h))
    unfold maxMagnitude
    norm_num
  obtain ⟨n, rfl⟩ := fits.onGrid large
  have unit := two_zpow_pos 75
  rw [maxMagnitude_units] at above ⊢
  rw [mul_lt_mul_iff_left₀ unit, Int.cast_lt] at above
  rw [← add_one_mul, mul_le_mul_iff_left₀ unit]
  exact_mod_cast above

/-- Which numbers are rounded to more than the largest magnitude. -/
theorem lt_nearest_iff {r h : ℝ} (nearest : Nearest 53 r h) :
    (maxMagnitude : ℚ) < |h| ↔ (maxMagnitude : ℚ) + 2 ^ 74 < |r| := by
  have rounded := nearest.abs
  have fits : Fits 53 ((maxMagnitude : ℚ) : ℝ) := by
    rw [← scale_max]
    exact (fits_scale _).mono (by decide)
  have halves : (2 : ℝ) ^ (75 : ℤ) = 2 ^ 74 + 2 ^ 74 := by norm_num
  have unit : (0 : ℝ) < 2 ^ 74 := by positivity
  have beyond := fits_beyond
  have odd := not_fits_beyond
  have gap := beyond_le rounded.fits
  rw [halves, ← add_assoc] at beyond odd gap
  generalize ((maxMagnitude : ℚ) : ℝ) = m at *
  generalize (2 : ℝ) ^ 74 = u at *
  constructor
  · intro above
    by_contra low
    have low := not_lt.1 low
    have next := gap above
    have least : m < |r| := by
      by_contra below
      exact absurd (rounded.le fits (not_lt.1 below)) above.not_ge
    have near := rounded.near m fits
    rw [abs_of_nonpos (by linarith : |r| - |h| ≤ 0), abs_of_pos (sub_pos.2 least)] at near
    -- The number is in the middle, and was rounded to the odd neighbour.
    have middle : |r| = m + u := by linarith
    have same : |h| = m + u + u := by linarith
    refine odd (same ▸ rounded.even m fits (by linarith) ?_)
    rw [middle, same, show m + u - m = u by ring, show m + u - (m + u + u) = -u by ring, abs_neg]
  · intro above
    by_contra below
    have below := not_lt.1 below
    have near := rounded.near _ beyond
    rw [abs_of_pos (by linarith : 0 < |r| - |h|)] at near
    rcases abs_cases (|r| - (m + u + u)) with ⟨same, -⟩ | ⟨same, -⟩ <;> rw [same] at near <;> linarith

namespace Rounds

variable {r : ℝ} {o : Rounded}

/-- An overflow is reported for numbers that are nearer to the next number of 53 bits than to the largest magnitude. -/
theorem overflow_iff (rounds : Rounds r o) : o.overflows = true ↔ (maxMagnitude : ℚ) + 2 ^ 74 < |r| := by
  obtain ⟨h, nearest, outcome⟩ := rounds
  rw [overflow_iff_nearest nearest outcome, lt_nearest_iff nearest]

end Rounds

/-- A result that only rounds to a number of 24 bits if it is that number. -/
def Separated (r : ℝ) (o : Rounded) : Prop := ∃ h, Nearest 53 r h ∧ Outcome r h o ∧ (Fits 24 h → r = h)

namespace Separated

variable {r : ℝ} {o : Rounded}

theorem rounds (separated : Separated r o) : Rounds r o := by
  obtain ⟨h, nearest, outcome, -⟩ := separated
  exact ⟨h, nearest, outcome⟩

/-- An overflow is reported for just the numbers that are too large. -/
theorem overflow_iff (separated : Separated r o) : o.overflows = true ↔ (maxMagnitude : ℚ) < |r| := by
  obtain ⟨h, nearest, outcome, sharp⟩ := separated
  rw [Rounds.overflow_iff_nearest nearest outcome, ← scale_max]
  constructor
  · exact gt_of_nearest nearest (by decide)
  · intro above
    refine (nearest.abs.ge ((fits_scale _).mono (by decide)) above.le).lt_of_ne fun same => above.ne ?_
    rw [sharp (Fits.of_abs (same ▸ fits_scale _)), ← same]

end Separated

/-! ## The operations -/

theorem separated_ofDouble {r : ℝ} {hi : Dyadic} (nearest : Nearest 53 r hi.toReal)
    (sharp : Fits 24 hi.toReal → r = hi.toReal) : Separated r (ofDouble hi) := by
  refine ⟨_, nearest, truncate_spec nearest fun fits => ?_, sharp⟩
  rw [sharp fits, sub_self, ← Dyadic.isZero_iff]
  rfl

theorem rounds_sum {x y : Dyadic} (hx : Fits 24 x.toReal) (hy : Fits 24 y.toReal) :
    Rounds (x.toReal + y.toReal) (add x y) := by
  have nearest := Double.nearest_add x y
  exact ⟨_, nearest, truncate_spec nearest fun _ => Double.twoSum_exact hx hy⟩

section
variable (a b : Word)

theorem fits_value : Fits 24 (value a).toReal := by
  rw [toReal_value]
  exact fits_val a

theorem rounds_add : Rounds ((val a : ℚ) + (val b : ℚ)) (add (value a) (value b)) := by
  rw [← toReal_value, ← toReal_value]
  exact rounds_sum (fits_value a) (fits_value b)

theorem rounds_sub : Rounds ((val a : ℚ) - (val b : ℚ)) (sub (value a) (value b)) := by
  rw [← toReal_value, ← toReal_value, sub_eq_add_neg, ← Dyadic.toReal_negate]
  refine rounds_sum (fits_value a) ?_
  rw [Dyadic.toReal_negate]
  exact (fits_value b).neg

theorem separated_mul : Separated ((val a : ℚ) * (val b : ℚ)) (mul (value a) (value b)) := by
  rw [← toReal_value, ← toReal_value]
  have nearest := Double.nearest_mul (value a) (value b)
  exact separated_ofDouble nearest fun _ =>
    (nearest.eq_of_fits (((fits_value a).mul (fits_value b)).mono (by decide))).symm

variable {b} in
theorem separated_div (nonzero : val b ≠ 0) : Separated ((val a : ℚ) / (val b : ℚ)) (div (value a) (value b)) := by
  obtain ⟨low, high⟩ := mant_value nonzero
  have normal : (value a).mant = 0 ∨ 2 ^ 23 ≤ (value a).mant := by
    by_cases zero : val a = 0
    · rcases value_cases a with ⟨-, none, -⟩ | ⟨n, exponent, -⟩
      · exact .inl none
      · exact absurd (beq_iff_eq.1 ((isZero_pattern a).2 zero)) exponent
    · exact .inr (mant_value zero).1
  have divisor : (value b).toReal ≠ 0 := by
    rw [toReal_value]
    exact Rat.cast_ne_zero.2 nonzero
  have nearest := Dyadic.nearest_div normal (by omega : (value b).mant ≠ 0) high
  rw [← toReal_value, ← toReal_value]
  exact separated_ofDouble nearest (Double.div_separated (fits_value a) (fits_value b) divisor nearest)

variable {b} in
theorem rounds_sqrt (nonzero : val b ≠ 0) : Rounds √|((val b : ℚ) : ℝ)| (sqrt (value b)) := by
  have nearest := Dyadic.nearest_sqrt (mant_value nonzero).1
  rw [← toReal_value]
  exact (separated_ofDouble nearest (Double.sqrt_separated (fits_value b).abs (abs_nonneg _) nearest)).rounds

/-- Words have less than 53 bits. -/
theorem rounds_ofInt : Rounds (a.toInt : ℝ) (ofInt a.toInt) := by
  have bits : Fits 53 (a.toInt : ℝ) := by
    have low := a.le_toInt
    have high := a.toInt_lt
    exact ⟨a.toInt, 0, abs_lt.2 ⟨by omega, by omega⟩, by simp⟩
  have nearest : Nearest 53 (a.toInt : ℝ) (Dyadic.ofInt a.toInt).toReal := by
    rw [Dyadic.toReal_ofInt]
    exact nearest_self bits
  exact (separated_ofDouble nearest fun _ => (Dyadic.toReal_ofInt _).symm).rounds

/-! ## Results that are in range -/

variable {b} in
theorem abs_val_range (nonzero : val b ≠ 0) :
    (minMagnitude : ℚ) ≤ |((val b : ℚ) : ℝ)| ∧ |((val b : ℚ) : ℝ)| ≤ (maxMagnitude : ℚ) := by
  rcases value_cases b with ⟨-, -, zero⟩ | ⟨n, -, normal, -, same⟩
  · exact absurd zero nonzero
  · have size : |((val b : ℚ) : ℝ)| = scale n := by
      rw [same]
      split
      · rw [abs_neg, abs_of_pos (scale_pos n)]
      · exact abs_of_pos (scale_pos n)
    rw [size, ← scale_min, ← scale_max]
    exact ⟨scale_strictMono.monotone normal.1, scale_strictMono.monotone (by have := normal.2; omega)⟩

variable {b} in
theorem sqrt_stored (nonzero : val b ≠ 0) :
    (sqrt (value b)).bitsOrZero = (sqrt (value b)).stored := by
  obtain ⟨low, high⟩ := abs_val_range nonzero
  have least : ((minMagnitude : ℚ) : ℝ) * (minMagnitude : ℚ) ≤ (minMagnitude : ℚ) := by
    unfold minMagnitude
    norm_num
  have greatest : ((maxMagnitude : ℚ) : ℝ) ≤ (maxMagnitude : ℚ) * (maxMagnitude : ℚ) := by
    unfold maxMagnitude
    norm_num
  have positive : (0 : ℝ) ≤ (maxMagnitude : ℚ) := by
    rw [← scale_max]
    exact (scale_pos _).le
  refine (rounds_sqrt nonzero).bitsOrZero_eq (fun _ => ?_) ?_
  · rw [scale_min, abs_of_nonneg (Real.sqrt_nonneg _)]
    exact Real.le_sqrt_of_sq_le (by rw [sq]; exact least.trans low)
  · rw [scale_max, abs_of_nonneg (Real.sqrt_nonneg _), Real.sqrt_le_left positive, sq]
    exact high.trans greatest

theorem ofInt_stored : (ofInt a.toInt).bitsOrZero = (ofInt a.toInt).stored := by
  refine (rounds_ofInt a).bitsOrZero_eq (fun nonzero => ?_) ?_
  · have one : (1 : ℝ) ≤ |(a.toInt : ℝ)| := by
      rw [← Int.cast_abs]
      exact_mod_cast Int.one_le_abs (Int.cast_ne_zero.1 nonzero)
    refine le_trans ?_ one
    rw [scale_min, minMagnitude]
    norm_num
  · have low := a.le_toInt
    have high := a.toInt_lt
    have word : |(a.toInt : ℝ)| ≤ 2 ^ 31 := by
      rw [← Int.cast_abs]
      exact_mod_cast abs_le.2 ⟨by omega, by omega⟩
    refine word.trans ?_
    rw [scale_max, maxMagnitude]
    norm_num

end

/-! ## Integers -/

def integerPart (q : ℚ) : ℤ := if 0 ≤ q then ⌊q⌋ else ⌈q⌉

theorem integerPart_neg (q : ℚ) : integerPart (-q) = -integerPart q := by
  unfold integerPart
  rcases lt_trichotomy q 0 with below | rfl | above
  · rw [if_pos (by linarith), if_neg below.not_ge, Int.floor_neg]
  · simp
  · rw [if_neg (by linarith), if_pos above.le, Int.ceil_neg]

theorem floor_magnitude (x : Dyadic) :
    ⌊x.magnitude⌋ = (if 0 ≤ x.exp then x.mant * twoPow x.exp.toNat else x.mant / twoPow (-x.exp).toNat : ℕ) := by
  rw [Dyadic.magnitude_eq]
  split
  · next whole =>
    obtain ⟨n, same⟩ := Int.eq_ofNat_of_zero_le whole
    rw [same, Int.toNat_natCast, zpow_natCast, twoPow_eq]
    exact_mod_cast Int.floor_natCast (x.mant * 2 ^ n)
  · next part =>
    obtain ⟨n, same⟩ : ∃ n : ℕ, x.exp = -(n : ℤ) := ⟨(-x.exp).toNat, by omega⟩
    have cut := Nat.floor_div_eq_div (K := ℝ) x.mant (2 ^ n)
    rw [same, neg_neg, Int.toNat_natCast, zpow_neg, zpow_natCast, twoPow_eq, ← div_eq_mul_inv, ← cut,
      Int.natCast_floor_eq_floor (by positivity)]
    push_cast
    rfl

theorem trunc_eq {x : Dyadic} {q : ℚ} (same : x.toReal = q) : x.trunc = integerPart q := by
  have floor := floor_magnitude x
  unfold Dyadic.trunc
  dsimp only
  rw [← floor]
  have nonneg := x.magnitude_nonneg
  unfold Dyadic.toReal at same
  cases negative : x.neg with
  | false =>
    rw [negative, if_neg Bool.false_ne_true] at same
    rw [if_neg Bool.false_ne_true, same, Rat.floor_cast, integerPart, if_pos]
    rw [same] at nonneg
    exact_mod_cast nonneg
  | true =>
    rw [negative, if_pos rfl] at same
    have flipped : x.magnitude = ((-q : ℚ) : ℝ) := by
      rw [Rat.cast_neg, ← same, neg_neg]
    rw [if_pos rfl, flipped, Rat.floor_cast, ← neg_neg q, integerPart_neg, neg_neg, integerPart, if_pos]
    rw [flipped] at nonneg
    exact_mod_cast nonneg

section
variable {b : Word}

theorem abs_val (b : Word) : |val b| =
    if exponent b = 255 then maxMagnitude
    else if exponent b = 0 then 0
    else (2 ^ 23 + fraction b) * 2 ^ ((exponent b : ℤ) - 150) := by
  have nonneg : (0 : ℚ) ≤ if exponent b = 255 then maxMagnitude
      else if exponent b = 0 then 0
      else (2 ^ 23 + fraction b) * 2 ^ ((exponent b : ℤ) - 150) := by
    have largest : 0 ≤ maxMagnitude := by
      unfold maxMagnitude
      norm_num
    split_ifs
    · exact largest
    · exact le_rfl
    · exact mul_nonneg (by positivity) (zpow_nonneg zero_le_two _)
  unfold val
  dsimp only
  split
  · rw [abs_neg, abs_of_nonneg nonneg]
  · exact abs_of_nonneg nonneg

theorem val_eq (b : Word) : val b = if b.msb then -|val b| else |val b| := by
  rw [abs_val]
  rfl

theorem abs_val_lt (small : exponent b ≤ 157) : |val b| < 2 ^ 31 := by
  rw [abs_val, if_neg (by omega)]
  split
  · positivity
  · have cut : ((fraction b : ℕ) : ℚ) < 2 ^ 23 := by
      exact_mod_cast Nat.mod_lt b.toNat (show 0 < 2 ^ 23 by decide)
    calc ((2 : ℚ) ^ 23 + fraction b) * 2 ^ ((exponent b : ℤ) - 150)
        ≤ (2 ^ 23 + fraction b) * 2 ^ (7 : ℤ) :=
          mul_le_mul_of_nonneg_left (zpow_le_zpow_right₀ (by norm_num) (by omega)) (by positivity)
      _ < 2 ^ 31 := by norm_num; linarith

theorem le_abs_val (large : 157 < exponent b) : 2 ^ 31 ≤ |val b| := by
  rw [abs_val]
  split
  · unfold maxMagnitude
    norm_num
  · rw [if_neg (by omega)]
    calc (2 : ℚ) ^ 31 = 2 ^ 23 * (2 : ℚ) ^ (8 : ℤ) := by norm_num
      _ ≤ (2 ^ 23 + fraction b) * (2 : ℚ) ^ ((exponent b : ℤ) - 150) :=
          mul_le_mul (le_add_of_nonneg_right (Nat.cast_nonneg _)) (zpow_le_zpow_right₀ (by norm_num) (by omega))
            (by positivity) (by positivity)

/-- The integer part is as large as the number, within one. -/
theorem le_integerPart {q : ℚ} {n : ℕ} (le : n ≤ q) : (n : ℤ) ≤ integerPart q := by
  rw [integerPart, if_pos ((Nat.cast_nonneg n).trans le)]
  exact Int.le_floor.2 (by exact_mod_cast le)

theorem integerPart_lt {q : ℚ} {n : ℕ} (positive : 0 < n) (lt : q < n) : integerPart q < n := by
  unfold integerPart
  split
  · exact Int.floor_lt.2 (by exact_mod_cast lt)
  · next negative =>
    have none : ⌈q⌉ ≤ 0 := Int.ceil_le.2 (by exact_mod_cast (not_le.1 negative).le)
    omega

/-- Numbers become integers without their fractions, and the nearest end of the words if they are out of range. -/
theorem toInt_toWord (b : Word) : (toWord b).toInt = max (-2 ^ 31) (min (2 ^ 31 - 1) (integerPart (val b))) := by
  unfold toWord
  split
  · next small =>
    obtain ⟨low, high⟩ := abs_lt.1 (abs_val_lt small)
    have above : integerPart (-val b) < (2 ^ 31 : ℕ) := integerPart_lt (by decide) (by push_cast; linarith)
    have below : integerPart (val b) < (2 ^ 31 : ℕ) := integerPart_lt (by decide) (by exact_mod_cast high)
    rw [integerPart_neg] at above
    rw [trunc_eq (toReal_value b), BitVec.toInt_ofInt_eq_self (by decide) (by omega) (by omega)]
    omega
  · next large =>
    have size := le_abs_val (not_le.1 large)
    have sign := val_eq b
    split
    · next negative =>
      rw [if_pos negative] at sign
      have far : ((2 ^ 31 : ℕ) : ℤ) ≤ integerPart (-val b) :=
        le_integerPart (by rw [sign, neg_neg]; exact_mod_cast size)
      rw [integerPart_neg] at far
      rw [show (0x80000000#32 : Word).toInt = -2 ^ 31 by decide]
      omega
    · next positive =>
      rw [if_neg positive] at sign
      have far : ((2 ^ 31 : ℕ) : ℤ) ≤ integerPart (val b) := le_integerPart (by rw [sign]; exact_mod_cast size)
      rw [show (0x7FFFFFFF#32 : Word).toInt = 2 ^ 31 - 1 by decide]
      omega

end

end EmotionEngine.Single
