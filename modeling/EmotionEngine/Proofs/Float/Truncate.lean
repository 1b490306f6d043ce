import EmotionEngine.Proofs.Float.Double
import EmotionEngine.Proofs.Float.Pattern

/-!
Rounding toward zero to single precision.

1. A number of 24 bits that is in range has a pattern, and `ofDyadic` gives it (`ofDyadic_eq`); the pattern of the
   next number toward zero is the one before it (`towardZero_signed`).
2. `truncate` is given the 53 bits of a number, and what they lack where they are only 24. Numbers of 24 bits are
   numbers of 53 bits, so that neither rounding passes one; what is left is whether the number is below the one it
   was rounded to (`truncate_spec`).
3. `Truncates r b` says what the pattern `b` of a result `r` has to be. What `truncate` gives is that, with the largest
   magnitude and zero stored for numbers out of range (`Rounds.truncates`). It reports an underflow exactly for the
   numbers below the smallest magnitude (`Rounds.underflow_iff`), but an overflow only for those that are nearer to the
   next number of 53 bits than to the largest magnitude (`Rounds.overflow_iff`).
-/

namespace EmotionEngine.Single

open Rounding

/-! ## Patterns of numbers of 24 bits -/

/-- A mantissa with its leading bit in the place of the hidden bit. -/
def aligned (n : ℕ) : ℕ := if 24 ≤ bitLength n then n / twoPow (bitLength n - 24) else n * twoPow (24 - bitLength n)

theorem magnitudeBits_eq (x : Dyadic) :
    magnitudeBits x = (x.exp + bitLength x.mant + 126).toNat * twoPow 23 + (aligned x.mant - twoPow 23) := rfl

/-- The bits of a mantissa after the first 24 are zeros if the number has 24 bits: it is on the grid of the others. -/
theorem dvd_mant {x : Dyadic} (fits : Fits 24 x.toReal) {d : ℕ} (large : 2 ^ 23 * 2 ^ d ≤ x.mant) : 2 ^ d ∣ x.mant := by
  have above : (2 : ℝ) ^ (((24 : ℕ) : ℤ) - 1 + (x.exp + d)) ≤ |x.toReal| := by
    calc (2 : ℝ) ^ (((24 : ℕ) : ℤ) - 1 + (x.exp + d)) = ((2 ^ 23 * 2 ^ d : ℕ) : ℝ) * 2 ^ x.exp := by
          rw [show ((24 : ℕ) : ℤ) - 1 + (x.exp + d) = (23 : ℕ) + (d : ℤ) + x.exp by push_cast; ring, two_zpow_add,
            two_zpow_add, zpow_natCast, zpow_natCast]
          norm_num
      _ ≤ x.mant * 2 ^ x.exp := mul_le_mul_of_nonneg_right (Nat.cast_le.2 large) (two_zpow_pos _).le
      _ = |x.toReal| := by rw [Dyadic.abs_toReal, Dyadic.magnitude_eq]
  obtain ⟨n, same⟩ := (fits.onGrid above).abs
  rw [Dyadic.abs_toReal, Dyadic.magnitude_eq, two_zpow_add, mul_comm (2 ^ x.exp) _, ← mul_assoc,
    mul_left_inj' (two_zpow_pos _).ne', zpow_natCast] at same
  have multiple : (x.mant : ℤ) = n * 2 ^ d := by exact_mod_cast same
  exact_mod_cast Dvd.intro_left n multiple.symm

theorem aligned_spec {x : Dyadic} (fits : Fits 24 x.toReal) (nonzero : x.mant ≠ 0) :
    2 ^ 23 ≤ aligned x.mant ∧ aligned x.mant < 2 ^ 24 ∧
      |x.toReal| = aligned x.mant * 2 ^ (x.exp + bitLength x.mant - 24) := by
  have length : 0 < bitLength x.mant := lt_bitLength (Nat.one_le_iff_ne_zero.2 nonzero)
  have lower : 2 ^ (bitLength x.mant - 1) ≤ x.mant := le_of_bitLength (by omega)
  have upper := lt_twoPow_bitLength x.mant
  rw [Dyadic.abs_toReal, Dyadic.magnitude_eq]
  unfold aligned
  split
  · next long =>
    obtain ⟨d, len⟩ := Nat.exists_eq_add_of_le long
    rw [len] at lower upper ⊢
    rw [show 24 + d - 1 = 23 + d by omega, pow_add] at lower
    rw [pow_add, mul_comm] at upper
    rw [Nat.add_sub_cancel_left, twoPow_eq, show x.exp + ((24 + d : ℕ) : ℤ) - 24 = d + x.exp by push_cast; ring,
      two_zpow_add, zpow_natCast, ← mul_assoc]
    have whole : ((x.mant / 2 ^ d : ℕ) : ℝ) * 2 ^ d = x.mant := by
      exact_mod_cast Nat.div_mul_cancel (dvd_mant fits lower)
    exact ⟨(Nat.le_div_iff_mul_le (Nat.two_pow_pos d)).2 lower, Nat.div_lt_of_lt_mul upper, by rw [whole]⟩
  · next short =>
    obtain ⟨d, len⟩ : ∃ d, 24 = bitLength x.mant + d := ⟨24 - bitLength x.mant, by omega⟩
    have unit := Nat.two_pow_pos d
    rw [show 24 - bitLength x.mant = d by omega, twoPow_eq]
    refine ⟨?_, ?_, ?_⟩
    · calc 2 ^ 23 = 2 ^ (bitLength x.mant - 1) * 2 ^ d := by rw [← pow_add]; congr 1; omega
        _ ≤ x.mant * 2 ^ d := Nat.mul_le_mul_right _ lower
    · calc x.mant * 2 ^ d < 2 ^ bitLength x.mant * 2 ^ d := Nat.mul_lt_mul_of_pos_right upper unit
        _ = 2 ^ 24 := by rw [← pow_add, ← len]
    · rw [show x.exp + (bitLength x.mant : ℤ) - 24 = -(d : ℤ) + x.exp by omega, two_zpow_add, zpow_neg, zpow_natCast]
      have nonzero : (2 : ℝ) ^ d ≠ 0 := by positivity
      push_cast
      field_simp

/-- A number of 24 bits in range is one of the normal numbers, and `magnitudeBits` finds which. -/
theorem magnitudeBits_spec {x : Dyadic} (fits : Fits 24 x.toReal) (lower : scale (2 ^ 23) ≤ |x.toReal|)
    (upper : |x.toReal| ≤ scale (255 * 2 ^ 23 - 1)) :
    Normal (magnitudeBits x) ∧ scale (magnitudeBits x) = |x.toReal| := by
  have nonzero : x.mant ≠ 0 := by
    intro zero
    have positive := (scale_pos _).trans_le lower
    rw [Dyadic.abs_toReal, Dyadic.magnitude_eq, zero] at positive
    simp at positive
  obtain ⟨low, high, same⟩ := aligned_spec fits nonzero
  rw [magnitudeBits_eq, twoPow_eq]
  generalize aligned x.mant = m at low high same ⊢
  obtain ⟨e, place⟩ : ∃ e, e = x.exp + bitLength x.mant - 24 := ⟨_, rfl⟩
  rw [← place] at same
  have above : (2 : ℝ) ^ (-126 : ℤ) < 2 ^ (24 + e) := by
    calc (2 : ℝ) ^ (-126 : ℤ) = scale (2 ^ 23) := by rw [scale_min, minMagnitude]; norm_num
      _ ≤ m * 2 ^ e := by rwa [← same]
      _ < 2 ^ 24 * 2 ^ e := mul_lt_mul_of_pos_right (by exact_mod_cast high) (two_zpow_pos e)
      _ = 2 ^ (24 + e) := by rw [two_zpow_add]; norm_num
  have below : (2 : ℝ) ^ (23 + e) < 2 ^ (128 : ℤ) := by
    calc (2 : ℝ) ^ (23 + e) = 2 ^ 23 * 2 ^ e := by rw [two_zpow_add]; norm_num
      _ ≤ m * 2 ^ e := mul_le_mul_of_nonneg_right (by exact_mod_cast low) (two_zpow_pos e).le
      _ ≤ scale (255 * 2 ^ 23 - 1) := by rwa [← same]
      _ < 2 ^ (128 : ℤ) := by rw [scale_max, maxMagnitude]; norm_num
  have least := two_zpow_lt.1 above
  have greatest := two_zpow_lt.1 below
  obtain ⟨k, biased⟩ : ∃ k : ℕ, (k : ℤ) = e + 150 := ⟨(e + 150).toNat, by omega⟩
  rw [show (x.exp + bitLength x.mant + 126).toNat = k by omega]
  refine ⟨⟨by omega, by omega⟩, ?_⟩
  rw [same, scale_eq, show (k * 2 ^ 23 + (m - 2 ^ 23)) / 2 ^ 23 = k by omega,
    show 2 ^ 23 + (k * 2 ^ 23 + (m - 2 ^ 23)) % 2 ^ 23 = m by omega, biased, add_sub_cancel_right]

theorem ofDyadic_spec {x : Dyadic} (fits : Fits 24 x.toReal) (lower : scale (2 ^ 23) ≤ |x.toReal|)
    (upper : |x.toReal| ≤ scale (255 * 2 ^ 23 - 1)) :
    ∃ n, Normal n ∧ scale n = |x.toReal| ∧ ofDyadic x = signed x.neg n := by
  obtain ⟨normal, same⟩ := magnitudeBits_spec fits lower upper
  refine ⟨_, normal, same, ?_⟩
  have nonzero : x.isZero = false := by
    rw [Dyadic.isZero_false_iff, ← abs_pos]
    exact (scale_pos _).trans_le lower
  rw [ofDyadic, nonzero]
  rfl

/-- The pattern of the next number toward zero is the one before it. -/
theorem towardZero_signed {neg : Bool} {n : ℕ} (positive : 0 < n) (small : n < 2 ^ 31) :
    towardZero (signed neg n) = signed neg (n - 1) := by
  have whole : (signed neg n).toNat = neg.toNat * 2 ^ 31 + n := toNat_signed small
  have magnitude : (signed neg n &&& ~~~signBit).toNat = n := by
    rw [BitVec.toNat_and, show (~~~signBit).toNat = 2 ^ 31 - 1 by decide, Nat.and_two_pow_sub_one_eq_mod, whole]
    omega
  have nonzero : signed neg n &&& ~~~signBit ≠ 0 := by
    intro zero
    rw [zero] at magnitude
    exact positive.ne magnitude
  rw [towardZero, if_neg nonzero]
  refine BitVec.eq_of_toNat_eq ?_
  rw [BitVec.toNat_sub_of_le (BitVec.le_def.2 (by rw [whole]; show 1 ≤ _; omega)), whole, toNat_signed (by omega)]
  show _ + n - 1 = _ + (n - 1)
  omega

/-! ## Rounding toward zero -/

/-- What rounding `r` toward zero gives, where `hi` is its nearest number of 53 bits. -/
inductive Outcome (r hi : ℝ) : Rounded → Prop
  | zero (neg : Bool) (none : r = 0) : Outcome r hi (.value (zero neg))
  | overflow (neg : Bool) (sign : neg = true ↔ r < 0) (large : scale (255 * 2 ^ 23 - 1) < |hi|) :
    Outcome r hi (.overflow neg)
  | underflow (neg : Bool) (sign : neg = true ↔ r < 0) (some : r ≠ 0) (small : |r| < scale (2 ^ 23)) :
    Outcome r hi (.underflow neg)
  | value (neg : Bool) (n : ℕ) (sign : neg = true ↔ r < 0) (normal : Normal n)
    (inside : |hi| ≤ scale (255 * 2 ^ 23 - 1)) (lower : scale n ≤ |r|) (upper : |r| < scale (n + 1)) :
    Outcome r hi (.value (signed neg n))

section
variable {r : ℝ} {hi lo : Dyadic}

/-- Rounding does not pass a single-precision number. -/
theorem lt_of_nearest {p : ℕ} {x y : ℝ} (nearest : Nearest p x y) (bits : 24 ≤ p) {n : ℕ} (above : |y| < scale n) :
    |x| < scale n := by
  by_contra beyond
  exact absurd (nearest.abs.ge ((fits_scale n).mono bits) (not_lt.1 beyond)) above.not_ge

theorem gt_of_nearest {p : ℕ} {x y : ℝ} (nearest : Nearest p x y) (bits : 24 ≤ p) {n : ℕ} (below : scale n < |y|) :
    scale n < |x| := by
  by_contra beyond
  exact absurd (nearest.abs.le ((fits_scale n).mono bits) (not_lt.1 beyond)) below.not_ge

theorem toReal_maxValue : maxValue.toReal = scale (255 * 2 ^ 23 - 1) := by
  rw [scale_max, maxMagnitude]
  unfold maxValue Dyadic.toReal
  rw [Dyadic.magnitude_eq]
  rw [twoPow_eq]
  norm_num

theorem toReal_minValue : minValue.toReal = scale (2 ^ 23) := by
  rw [scale_min, minMagnitude]
  unfold minValue Dyadic.toReal
  rw [Dyadic.magnitude_eq]
  norm_num

theorem over_iff : hi.cmpMag maxValue = .gt ↔ scale (255 * 2 ^ 23 - 1) < |hi.toReal| := by
  rw [Dyadic.cmpMag_gt, toReal_maxValue, abs_of_pos (scale_pos _)]

theorem under_iff : hi.cmpMag minValue = .lt ↔ |hi.toReal| < scale (2 ^ 23) := by
  rw [Dyadic.cmpMag_lt, toReal_minValue, abs_of_pos (scale_pos _)]

theorem nonzero_of_nearest (nearest : Nearest 53 r hi.toReal) (some : r ≠ 0) : hi.toReal ≠ 0 := by
  intro zero
  have error := nearest.error (by decide)
  rw [zero, sub_zero] at error
  have unit : (2 : ℝ) ^ (-((53 : ℕ) : ℤ)) < 1 := two_zpow_lt.2 (show (-((53 : ℕ) : ℤ)) < 0 by decide)
  have less := mul_lt_mul_of_pos_left unit (abs_pos.2 some)
  linarith

theorem sign_of_nearest (nearest : Nearest 53 r hi.toReal) (some : r ≠ 0) : hi.neg = true ↔ r < 0 := by
  have nonzero := nonzero_of_nearest nearest some
  rw [Dyadic.neg_iff nonzero]
  constructor
  · intro below
    by_contra above
    exact absurd (nearest.ge (.zero 53) (not_lt.1 above)) below.not_ge
  · intro below
    exact (nearest.le (.zero 53) below.le).lt_of_ne nonzero

theorem truncate_zero (nearest : Nearest 53 r hi.toReal) (lost : Fits 24 hi.toReal → lo.toReal = r - hi.toReal)
    (none : r = 0) : truncate hi lo = .value (zero hi.neg) := by
  have hiZero : hi.toReal = 0 := by
    rw [nearest.eq_of_fits (by rw [none]; exact .zero 53), none]
  have fZero : (hi.round 24).toReal = 0 := by
    rw [(Dyadic.nearest_round (by decide) hi).eq_of_fits (by rw [hiZero]; exact .zero 24), hiZero]
  have loZero : lo.isZero = true := by
    rw [Dyadic.isZero_iff, lost (by rw [hiZero]; exact .zero 24), hiZero, none, sub_zero]
  have inside : ¬ hi.cmpMag maxValue = .gt := by
    rw [over_iff, hiZero, abs_zero]
    exact (scale_pos _).not_gt
  have same : ¬ (hi.round 24).cmpMag hi = .gt := by
    rw [Dyadic.cmpMag_gt, fZero, hiZero]
    exact lt_irrefl _
  rw [truncate, if_neg inside, if_neg (by rw [hi.isZero_iff.2 hiZero]; simp)]
  dsimp only
  rw [if_neg same, if_neg (by rw [loZero]; simp), ofDyadic, if_pos ((Dyadic.isZero_iff _).2 fZero)]
  exact congrArg Rounded.value BitVec.or_zero

theorem outcome_pred {neg : Bool} {n : ℕ} (sign : neg = true ↔ r < 0) (above : 2 ^ 23 < n) (normal : Normal n)
    (inside : |hi.toReal| ≤ scale (255 * 2 ^ 23 - 1)) (lower : scale (n - 1) ≤ |r|) (upper : |r| < scale n) :
    Outcome r hi.toReal (.value (towardZero (signed neg n))) := by
  have before : n - 1 + 1 = n := by omega
  rw [towardZero_signed (by omega) normal.small]
  exact .value neg (n - 1) sign ⟨by omega, by have := normal.2; omega⟩ inside lower (by rwa [before])

/-- What is lost makes a number smaller if it has the other sign. -/
theorem abs_lt_iff_lost (nonzero : hi.toReal ≠ 0) (sign : hi.neg = true ↔ r < 0) (exact : lo.toReal = r - hi.toReal) :
    |r| < |hi.toReal| ↔ lo.isZero = false ∧ lo.neg ≠ hi.neg := by
  have hiSign := Dyadic.neg_iff nonzero
  rw [Dyadic.isZero_false_iff]
  by_cases none : lo.toReal = 0
  · have same : r = hi.toReal := sub_eq_zero.1 (exact.symm.trans none)
    rw [same]
    exact iff_of_false (lt_irrefl _) fun some => some.1 none
  have loSign := Dyadic.neg_iff none
  rw [exact, sub_neg] at loSign
  rw [and_iff_right none]
  cases negative : hi.neg with
  | true =>
    rw [negative] at sign hiSign
    rw [abs_of_neg (sign.1 rfl), abs_of_neg (hiSign.1 rfl), neg_lt_neg_iff, Ne, loSign, not_lt]
    exact ⟨le_of_lt, fun le => le.lt_of_ne fun same => none (by rw [exact, same, sub_self])⟩
  | false =>
    rw [negative] at sign hiSign
    have positive : 0 ≤ r := by simpa using sign
    have positive' : 0 ≤ hi.toReal := by simpa using hiSign
    rw [abs_of_nonneg positive, abs_of_nonneg positive', Bool.ne_false_iff, loSign]

/-- `truncate` rounds toward zero, if it knows what a number of 24 bits lacks. -/
theorem truncate_spec (nearest : Nearest 53 r hi.toReal) (lost : Fits 24 hi.toReal → lo.toReal = r - hi.toReal) :
    Outcome r hi.toReal (truncate hi lo) := by
  by_cases none : r = 0
  · rw [truncate_zero nearest lost none]
    exact .zero _ none
  have sign := sign_of_nearest nearest none
  have nonzero := nonzero_of_nearest nearest none
  unfold truncate
  split
  · next exceeds => exact .overflow _ sign (over_iff.1 exceeds)
  next inside =>
  have inside := not_lt.1 (mt over_iff.2 inside)
  split
  · next under => exact .underflow _ sign none (lt_of_nearest nearest (by decide) (under_iff.1 under.2))
  next large =>
  have large : scale (2 ^ 23) ≤ |hi.toReal| :=
    not_lt.1 fun small => large ⟨hi.isZero_false_iff.2 nonzero, under_iff.2 small⟩
  dsimp only
  -- The nearest single-precision number, on one side or the other.
  have single := Dyadic.nearest_round (p := 24) (by decide) hi
  obtain ⟨n, normal, size, pattern⟩ :=
    ofDyadic_spec single.fits (single.abs.ge (fits_scale _) large) (single.abs.le (fits_scale _) inside)
  rw [pattern, show (hi.round 24).neg = hi.neg from rfl]
  have farther := Dyadic.cmpMag_gt (hi.round 24) hi
  have equal := Dyadic.cmpMag_eq (hi.round 24) hi
  rw [← size] at farther equal
  have next : scale n < scale (n + 1) := scale_lt_succ n
  have previous (above : 2 ^ 23 < n) : scale (n - 1) < scale n := scale_strictMono (by omega)
  split
  · next above =>
    have above := farther.1 above
    have high : 2 ^ 23 < n := scale_strictMono.lt_iff_lt.1 (large.trans_lt above)
    have lower : scale (n - 1) < |hi.toReal| := gt_of_nearest single le_rfl (by rw [← size]; exact previous high)
    exact outcome_pred sign high normal inside (gt_of_nearest nearest (by decide) lower).le
      (lt_of_nearest nearest (by decide) above)
  next notAbove =>
  have atMost : scale n ≤ |hi.toReal| := not_lt.1 (mt farther.2 notAbove)
  split
  · next below =>
    obtain ⟨same, some, other⟩ := below
    have same := equal.1 same
    have fits : Fits 24 hi.toReal := Fits.of_abs (by rw [← same]; exact fits_scale n)
    have upper : |r| < scale n := by
      rw [same]
      exact (abs_lt_iff_lost nonzero sign (lost fits)).2 ⟨some, other⟩
    rcases normal.1.eq_or_lt with least | high
    · -- There is no normal number before the smallest.
      rw [towardZero_signed (by omega) normal.small, if_pos ?_]
      · exact .underflow _ sign none (by rwa [least])
      · rw [exponent_signed (by omega), fraction_signed (by omega), ← least]
        decide
    · have lower : scale (n - 1) < |hi.toReal| := (previous high).trans_le atMost
      rw [if_neg ?_]
      · exact outcome_pred sign high normal inside (gt_of_nearest nearest (by decide) lower).le upper
      · have small := normal.small
        rw [towardZero_signed (by omega) small, exponent_signed (by omega)]
        omega
  · next notBelow =>
    refine .value _ n sign normal inside ?_ ?_
    · rcases atMost.eq_or_lt with same | under
      · have fits : Fits 24 hi.toReal := Fits.of_abs (by rw [← same]; exact fits_scale n)
        rw [same]
        refine not_lt.1 fun less => ?_
        exact notBelow ⟨equal.2 same, (abs_lt_iff_lost nonzero sign (lost fits)).1 less⟩
      · exact (gt_of_nearest nearest (by decide) under).le
    · exact lt_of_nearest nearest (by decide) (lt_of_nearest single le_rfl (by rwa [← size]))

end

/-! ## Results -/

/-- The magnitudes of the single-precision numbers that are not zero. -/
def magnitudes : Set ℝ := {y | ∃ c : Word, exponent c ≠ 0 ∧ exponent c ≠ 255 ∧ |((val c : ℚ) : ℝ)| = y}

/-- A pattern that is not read as the number of another one: its exponent is not the largest, and it is no denormal. -/
structure Ordinary (b : Word) : Prop where
  finite : exponent b ≠ 255
  normal : exponent b = 0 → fraction b = 0

/-- The pattern of `r` rounded toward zero: it has the sign of `r` and the largest magnitude that does not exceed that
of `r`, which is the largest of all for large `r`, and zero for small ones. -/
structure Truncates (r : ℝ) (b : Word) : Prop where
  sign : b.msb = true ↔ r < 0
  clamped : (maxMagnitude : ℚ) < |r| → |((val b : ℚ) : ℝ)| = (maxMagnitude : ℚ)
  largest : (minMagnitude : ℚ) ≤ |r| → IsGreatest {y ∈ magnitudes | y ≤ |r|} |((val b : ℚ) : ℝ)|
  flushed : |r| < (minMagnitude : ℚ) → val b = 0

theorem magnitudes_eq : magnitudes = scale '' {n | Normal n} := by
  ext y
  constructor
  · rintro ⟨c, notZero, notMax, rfl⟩
    have small : c.toNat % 2 ^ 31 < 2 ^ 31 := Nat.mod_lt _ (by decide)
    rw [eq_signed c, exponent_signed small] at notZero notMax
    have normal : Normal (c.toNat % 2 ^ 31) := ⟨by omega, by omega⟩
    have size : |((val (signed c.msb (c.toNat % 2 ^ 31)) : ℚ) : ℝ)| = scale (c.toNat % 2 ^ 31) := abs_val_signed normal
    rw [← eq_signed] at size
    exact ⟨_, normal, size.symm⟩
  · rintro ⟨n, normal, rfl⟩
    obtain ⟨low, high⟩ := id normal
    have place : exponent (signed false n) = n / 2 ^ 23 := exponent_signed normal.small
    exact ⟨signed false n, by omega, by omega, abs_val_signed normal⟩

theorem ordinary_signed {neg : Bool} {n : ℕ} (normal : Normal n) : Ordinary (signed neg n) := by
  obtain ⟨low, high⟩ := id normal
  have place : exponent (signed neg n) = n / 2 ^ 23 := exponent_signed normal.small
  exact ⟨by omega, by omega⟩

theorem signed_zero (neg : Bool) : signed neg 0 = zero neg := BitVec.or_zero

theorem ordinary_zero (neg : Bool) : Ordinary (zero neg) := by
  cases neg <;> exact ⟨by decide, by decide⟩

theorem val_zero (neg : Bool) : val (zero neg) = 0 := by
  have none : exponent (zero neg) = 0 := by
    rw [← signed_zero, exponent_signed (by decide), Nat.zero_div]
  simp [val, none]

theorem msb_zero (neg : Bool) : (zero neg).msb = neg := by
  rw [← signed_zero, msb_signed (by decide)]

theorem zero_or_posMax (neg : Bool) : zero neg ||| posMax = signed neg (255 * 2 ^ 23 - 1) := rfl

/-- What a result stores: numbers out of range are replaced by the largest magnitude and by zero. -/
def Rounded.stored : Rounded → Word
  | .value b => b
  | .overflow neg => zero neg ||| posMax
  | .underflow neg => zero neg

/-- Whether a result is reported as too large. -/
def Rounded.overflows : Rounded → Bool
  | .overflow _ => true
  | _ => false

/-- Whether it is reported as too small. -/
def Rounded.underflows : Rounded → Bool
  | .underflow _ => true
  | _ => false

/-- A result of the number `r`, rounded from its 53 bits. -/
def Rounds (r : ℝ) (o : Rounded) : Prop := ∃ h, Nearest 53 r h ∧ Outcome r h o

theorem rounds_zero (neg : Bool) : Rounds 0 (.value (zero neg)) := ⟨0, nearest_self (.zero 53), .zero neg rfl⟩

/-- Of the magnitudes up to `|r|` a normal number has the largest, if the next number has a larger one. -/
theorem isGreatest_signed {r : ℝ} {neg : Bool} {n : ℕ} (normal : Normal n) (lower : scale n ≤ |r|)
    (upper : ∀ m, Normal m → scale m ≤ |r| → m ≤ n) :
    IsGreatest {y ∈ magnitudes | y ≤ |r|} |((val (signed neg n) : ℚ) : ℝ)| := by
  rw [abs_val_signed normal, magnitudes_eq]
  refine ⟨⟨⟨n, normal, rfl⟩, lower⟩, ?_⟩
  rintro _ ⟨⟨m, other, rfl⟩, below⟩
  exact scale_strictMono.monotone (upper m other below)

namespace Rounds

variable {r : ℝ} {o : Rounded}

/-- Results are rounded toward zero. -/
theorem truncates (rounds : Rounds r o) (nonzero : r ≠ 0) : Truncates r o.stored := by
  obtain ⟨h, nearest, outcome⟩ := rounds
  cases outcome with
  | zero neg none => exact absurd none nonzero
  | overflow neg sign large =>
    have above : scale (255 * 2 ^ 23 - 1) < |r| := gt_of_nearest nearest (by decide) large
    have least : scale (2 ^ 23) ≤ |r| := (scale_strictMono.monotone (by decide)).trans above.le
    rw [Rounded.stored, zero_or_posMax]
    refine ⟨?_, fun _ => ?_, fun _ => isGreatest_signed normal_max above.le ?_, fun small => ?_⟩
    · rw [msb_signed normal_max.small, sign]
    · rw [abs_val_signed normal_max, scale_max]
    · intro m normal _
      have := normal.2
      omega
    · rw [← scale_min] at small
      exact absurd small least.not_gt
  | underflow neg sign some small =>
    refine ⟨?_, fun large => ?_, fun large => ?_, fun _ => val_zero neg⟩
    · rw [Rounded.stored, msb_zero, sign]
    · rw [← scale_max] at large
      exact absurd (small.trans (scale_strictMono (by decide))) large.not_gt
    · rw [← scale_min] at large
      exact absurd small large.not_gt
  | value neg n sign normal inside lower upper =>
    refine ⟨?_, fun large => ?_, fun _ => isGreatest_signed normal lower ?_, fun small => ?_⟩
    · rw [Rounded.stored, msb_signed normal.small, sign]
    · rw [← scale_max] at large
      have most : 255 * 2 ^ 23 - 1 < n + 1 := scale_strictMono.lt_iff_lt.1 (large.trans upper)
      rw [Rounded.stored, abs_val_signed normal, ← scale_max]
      congr 1
      have := normal.2
      omega
    · intro m _ below
      exact Nat.le_of_lt_succ (scale_strictMono.lt_iff_lt.1 (below.trans_lt upper))
    · rw [← scale_min] at small
      have few : n < 2 ^ 23 := scale_strictMono.lt_iff_lt.1 (lower.trans_lt small)
      exact absurd normal.1 few.not_ge

theorem ordinary (rounds : Rounds r o) : Ordinary o.stored := by
  obtain ⟨h, -, outcome⟩ := rounds
  cases outcome with
  | zero neg none => exact ordinary_zero neg
  | overflow neg sign large => exact ordinary_signed normal_max
  | underflow neg sign some small => exact ordinary_zero neg
  | value neg n sign normal inside lower upper => exact ordinary_signed normal

theorem bitsOrZero_eq (rounds : Rounds r o) (low : r ≠ 0 → scale (2 ^ 23) ≤ |r|)
    (high : |r| ≤ scale (255 * 2 ^ 23 - 1)) : o.bitsOrZero = o.stored := by
  obtain ⟨h, nearest, outcome⟩ := rounds
  cases outcome with
  | zero neg none => rfl
  | overflow neg sign large => exact absurd (gt_of_nearest nearest (by decide) large) high.not_gt
  | underflow neg sign some small => exact absurd small (low some).not_gt
  | value neg n sign normal inside lower upper => rfl

/-! ## When a result is out of range -/

/-- Every number that is too small is reported. -/
theorem underflow_iff (rounds : Rounds r o) : o.underflows = true ↔ r ≠ 0 ∧ |r| < (minMagnitude : ℚ) := by
  obtain ⟨h, nearest, outcome⟩ := rounds
  rw [← scale_min]
  cases outcome with
  | zero neg none => exact iff_of_false Bool.false_ne_true fun some => some.1 none
  | overflow neg sign large =>
    have above : scale (2 ^ 23) < |h| := lt_trans (scale_strictMono (by decide)) large
    exact iff_of_false Bool.false_ne_true fun some => some.2.not_gt (gt_of_nearest nearest (by decide) above)
  | underflow neg sign some small => exact iff_of_true rfl ⟨some, small⟩
  | value neg n sign normal inside lower upper =>
    have above : scale (2 ^ 23) ≤ |r| := (scale_strictMono.monotone normal.1).trans lower
    exact iff_of_false Bool.false_ne_true fun some => some.2.not_ge above

/-- A number is reported as too large if its 53 bits are. -/
theorem overflow_iff_nearest {h : ℝ} (nearest : Nearest 53 r h) (outcome : Outcome r h o) :
    o.overflows = true ↔ (maxMagnitude : ℚ) < |h| := by
  rw [← scale_max]
  cases outcome with
  | zero neg none =>
    have zero : h = 0 := by rw [nearest.eq_of_fits (by rw [none]; exact .zero 53), none]
    refine iff_of_false Bool.false_ne_true (not_lt.2 ?_)
    rw [zero, abs_zero]
    exact (scale_pos _).le
  | overflow neg sign large => exact iff_of_true rfl large
  | underflow neg sign some small =>
    have least : |r| ≤ scale (255 * 2 ^ 23 - 1) := small.le.trans (scale_strictMono.monotone normal_max.1)
    exact iff_of_false Bool.false_ne_true (nearest.abs.le ((fits_scale _).mono (by decide)) least).not_gt
  | value neg n sign normal inside lower upper => exact iff_of_false Bool.false_ne_true inside.not_gt

end Rounds

end EmotionEngine.Single
