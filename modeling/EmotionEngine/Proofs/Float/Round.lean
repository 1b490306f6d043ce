import EmotionEngine.Proofs.Float.Dyadic
import Mathlib.Algebra.Order.Floor.Semifield
import Mathlib.Analysis.Real.Sqrt

/-!
`Dyadic.round` gives the nearest number, also where a mantissa only stands for a number that is no dyadic.

1. Cutting bits off a mantissa, to the even neighbour in a tie, gives the nearest multiple of the unit that is left
   (`roundHalfEven_near`).
2. A mantissa stands for a number if it is that number, or odd and less than one away from it (`Stands`). Ties are
   between even mantissas, so that rounding the mantissa rounds the number (`nearest_roundHalfEven`).
3. The quotients and square roots that keep a sticky bit stand for the exact ones (`div_stands`, `sqrt_stands`).
-/

namespace EmotionEngine

open Rounding

/-! ## Bits -/

theorem lt_twoPow_bitLength (n : ℕ) : n < 2 ^ bitLength n := by
  unfold bitLength
  split
  · next zero => simp [zero]
  · exact Nat.lt_log2_self

theorem le_of_bitLength {n b : ℕ} (len : b < bitLength n) : 2 ^ b ≤ n := by
  unfold bitLength at len
  split at len
  · omega
  · next nonzero =>
    exact (Nat.pow_le_pow_right (by decide) (by omega)).trans (Nat.log2_self_le nonzero)

theorem lt_bitLength {n b : ℕ} (le : 2 ^ b ≤ n) : b < bitLength n := by
  by_contra short
  have small : n < 2 ^ b := (lt_twoPow_bitLength n).trans_le (Nat.pow_le_pow_right (by decide) (not_lt.1 short))
  omega

/-! ## Cutting bits off -/

theorem roundHalfEven_zero (n : ℕ) : roundHalfEven n 0 = n := by
  simp [roundHalfEven, twoPow, Nat.mod_one]

/-- The rounded mantissa is at most half a unit away, and even if it is that far away. -/
theorem roundHalfEven_near (n drop : ℕ) :
    2 * |(n : ℤ) - roundHalfEven n drop * 2 ^ drop| ≤ 2 ^ drop ∧
      (2 * |(n : ℤ) - roundHalfEven n drop * 2 ^ drop| = 2 ^ drop → roundHalfEven n drop % 2 = 0) := by
  have rest : n % 2 ^ drop < 2 ^ drop := Nat.mod_lt n (Nat.two_pow_pos drop)
  have division : (n : ℤ) = (n / 2 ^ drop : ℕ) * 2 ^ drop + (n % 2 ^ drop : ℕ) := by
    exact_mod_cast (Nat.div_add_mod' n (2 ^ drop)).symm
  have unit : ((2 ^ drop : ℕ) : ℤ) = 2 ^ drop := by push_cast; rfl
  unfold roundHalfEven
  simp only [twoPow_eq]
  rw [division, ← unit]
  generalize n / 2 ^ drop = q
  generalize n % 2 ^ drop = r at rest ⊢
  generalize 2 ^ drop = d at rest ⊢
  split
  · next condition =>
    rw [show (q : ℤ) * d + r - ((q + 1 : ℕ) : ℤ) * d = r - d by push_cast; ring, abs_of_nonpos (by omega)]
    omega
  · next condition =>
    rw [show (q : ℤ) * d + r - q * d = r by ring, abs_of_nonneg (by omega)]
    omega

/-- What is left has no more bits than are kept, but for the next power of two. -/
theorem roundHalfEven_le {n drop p : ℕ} (small : n < 2 ^ (p + drop)) : roundHalfEven n drop ≤ 2 ^ p := by
  have quotient : n / 2 ^ drop < 2 ^ p := Nat.div_lt_of_lt_mul (by rwa [Nat.mul_comm, ← Nat.pow_add])
  unfold roundHalfEven
  dsimp only
  split
  · exact quotient
  · exact quotient.le

/-! ## Rounding what a mantissa stands for -/

/-- Rounding `n` rounds `x`: it is `n`, or it is less than one away from `n`, which is odd. -/
def Stands (n : ℕ) (x : ℝ) : Prop := x = n ∨ n % 2 = 1 ∧ |x - n| < 1

theorem nearest_self {p : ℕ} {x : ℝ} (fits : Fits p x) : Nearest p x x := by
  refine ⟨fits, fun y _ => by simp, fun y _ other same => ?_⟩
  rw [sub_self, abs_zero, abs_eq_zero, sub_eq_zero] at same
  exact absurd same.symm other

/-- A number that a mantissa stands for is as large as an even bound of the mantissa. -/
theorem Stands.le {n b : ℕ} {x : ℝ} (stands : Stands n x) (even : b % 2 = 0) (le : b ≤ n) : (b : ℝ) ≤ x := by
  rcases stands with rfl | ⟨odd, close⟩
  · exact_mod_cast le
  · have next : (b : ℝ) + 1 ≤ n := by exact_mod_cast (by omega : b + 1 ≤ n)
    linarith [(abs_lt.1 close).1]

/-- A mantissa that is cut is as near to the number it stands for as rounding asks. -/
theorem Stands.near {n drop : ℕ} {x : ℝ} (stands : Stands n x) (deep : x ≠ n → 2 ≤ drop) :
    2 * |x - roundHalfEven n drop * 2 ^ drop| ≤ 2 ^ drop ∧
      (2 * |x - roundHalfEven n drop * 2 ^ drop| = 2 ^ drop → roundHalfEven n drop % 2 = 0) := by
  obtain ⟨near, even⟩ := roundHalfEven_near n drop
  rcases stands with rfl | ⟨odd, close⟩
  · exact ⟨by exact_mod_cast near, fun same => even (by exact_mod_cast same)⟩
  · by_cases exact : x = n
    · rw [exact]
      exact ⟨by exact_mod_cast near, fun same => even (by exact_mod_cast same)⟩
    · -- A unit is at least four, so that half a unit is even, and the odd mantissa is less than that away.
      obtain ⟨d, rfl⟩ := Nat.exists_eq_add_of_le (deep exact)
      have strict : 2 * |(n : ℤ) - roundHalfEven n (2 + d) * 2 ^ (2 + d)| + 2 ≤ 2 ^ (2 + d) := by
        rw [pow_add] at near ⊢
        rw [show (roundHalfEven n (2 + d) : ℤ) * (2 ^ 2 * 2 ^ d) = 4 * (roundHalfEven n (2 + d) * 2 ^ d) by ring]
          at near ⊢
        generalize (roundHalfEven n (2 + d) : ℤ) * 2 ^ d = t at near ⊢
        generalize (2 : ℤ) ^ d = u at near ⊢
        obtain ⟨lower, upper⟩ := abs_le.1 (by omega : |(n : ℤ) - 4 * t| ≤ 2 * u)
        have inside : |(n : ℤ) - 4 * t| ≤ 2 * u - 1 := abs_le.2 (by omega)
        omega
      have strict : 2 * |(n : ℝ) - roundHalfEven n (2 + d) * 2 ^ (2 + d)| + 2 ≤ 2 ^ (2 + d) := by exact_mod_cast strict
      have sum := abs_sub_le x n (roundHalfEven n (2 + d) * 2 ^ (2 + d))
      exact ⟨by linarith, fun same => by linarith⟩

/-- Rounding a mantissa to `p` bits rounds what it stands for. -/
theorem nearest_roundHalfEven {p n : ℕ} {e : ℤ} {x : ℝ} (two : 2 ≤ p) (stands : Stands n x)
    (deep : x ≠ n → 2 ≤ bitLength n - p) :
    Nearest p (x * 2 ^ e) (roundHalfEven n (bitLength n - p) * 2 ^ (e + (bitLength n - p : ℕ))) := by
  rcases Nat.eq_zero_or_pos (bitLength n - p) with short | long
  · have exact : x = n := by_contra fun other => by have := deep other; omega
    have small : n < 2 ^ p := (lt_twoPow_bitLength n).trans_le (Nat.pow_le_pow_right (by decide) (by omega))
    rw [short, roundHalfEven_zero, exact, Nat.cast_zero, add_zero]
    refine nearest_self ⟨n, e, ?_, by push_cast; rfl⟩
    rw [Nat.abs_cast]
    exact_mod_cast small
  · obtain ⟨near, even⟩ := stands.near deep
    generalize len : bitLength n - p = drop at long near even ⊢
    have small : n < 2 ^ (p + drop) := (lt_twoPow_bitLength n).trans_eq (by congr 1; omega)
    have large : ((2 ^ (p - 1 + drop) : ℕ) : ℝ) ≤ x :=
      stands.le (by rw [show p - 1 + drop = p - 2 + drop + 1 by omega, pow_succ, Nat.mul_mod_left])
        (le_of_bitLength (by omega))
    have bound : roundHalfEven n drop ≤ 2 ^ p := roundHalfEven_le small
    generalize roundHalfEven n drop = z at near even bound ⊢
    have unit := two_zpow_pos e
    have grid : OnGrid (e + drop) (z * 2 ^ (e + (drop : ℤ))) := ⟨z, by rw [Int.cast_natCast]⟩
    have size : |(z : ℝ) * 2 ^ (e + (drop : ℤ))| ≤ 2 ^ ((p : ℤ) + (e + drop)) := by
      have real : (z : ℝ) ≤ 2 ^ p := by exact_mod_cast bound
      rw [abs_of_nonneg (mul_nonneg (Nat.cast_nonneg z) (two_zpow_pos _).le), two_zpow_add p, zpow_natCast]
      exact mul_le_mul_of_nonneg_right real (two_zpow_pos _).le
    have half : (2 : ℝ) ^ (e + drop - 1) = 2 ^ drop / 2 * 2 ^ e := by
      rw [show e + (drop : ℤ) - 1 = e + drop + -1 by ring, two_zpow_add, two_zpow_add, zpow_natCast, zpow_neg_one]
      ring
    have distance : |x * 2 ^ e - z * 2 ^ (e + (drop : ℤ))| = |x - z * 2 ^ drop| * 2 ^ e := by
      rw [two_zpow_add, zpow_natCast, ← abs_of_pos unit, ← abs_mul, abs_of_pos unit]
      congr 1
      ring
    refine nearest_of_grid (by omega) ?_ (grid.fits_of_le (by omega) size) grid ?_ fun same => ?_
    · calc (2 : ℝ) ^ ((p : ℤ) - 1 + (e + drop)) = ((2 ^ (p - 1 + drop) : ℕ) : ℝ) * 2 ^ e := by
            rw [Nat.cast_pow, Nat.cast_ofNat, ← zpow_natCast, ← two_zpow_add]
            congr 1
            push_cast [Nat.cast_sub (by omega : 1 ≤ p)]
            ring
        _ ≤ x * 2 ^ e := mul_le_mul_of_nonneg_right large unit.le
        _ ≤ |x * 2 ^ e| := le_abs_self _
    · rw [distance, half]
      exact mul_le_mul_of_nonneg_right (by linarith) unit.le
    · rw [distance, half] at same
      have zeven := even (by linarith [mul_right_cancel₀ unit.ne' same])
      obtain ⟨w, rfl⟩ : ∃ w, z = 2 * w := ⟨z / 2, by omega⟩
      -- An even number of units has a bit less.
      have coarse : OnGrid (e + drop + 1) ((2 * w : ℕ) * 2 ^ (e + (drop : ℤ))) :=
        ⟨w, by rw [two_zpow_add (e + drop) 1]; push_cast; ring⟩
      refine coarse.fits_of_le (by omega) (size.trans_eq ?_)
      congr 1
      push_cast [Nat.cast_sub (by omega : 1 ≤ p)]
      ring

namespace Dyadic

/-- A dyadic whose mantissa stands for a number, with its sign, is rounded as that number. -/
theorem nearest_round_of_stands {p : ℕ} {y : Dyadic} {x : ℝ} (two : 2 ≤ p) (stands : Stands y.mant x)
    (deep : x ≠ y.mant → 2 ≤ bitLength y.mant - p) :
    Nearest p (if y.neg then -(x * 2 ^ y.exp) else x * 2 ^ y.exp) (y.round p).toReal := by
  have nearest := nearest_roundHalfEven (e := y.exp) two stands deep
  unfold round toReal
  simp only [magnitude_eq]
  split
  · exact nearest.neg
  · exact nearest

theorem nearest_round {p : ℕ} (two : 2 ≤ p) (x : Dyadic) : Nearest p x.toReal (x.round p).toReal := by
  have nearest := nearest_round_of_stands two (.inl rfl : Stands x.mant x.mant) fun other => absurd rfl other
  rw [← magnitude_eq] at nearest
  exact nearest

end Dyadic

/-! ## Sticky bits -/

/-- Half of a number stands between `q` and the next, so that a sticky bit after `q` tells all that rounding asks. -/
theorem stands_sticky {q : ℕ} {exact : Bool} {x : ℝ} (lower : (q : ℝ) ≤ x) (upper : x < q + 1)
    (sharp : exact = true ↔ x = q) : Stands (sticky q exact) (2 * x) := by
  unfold sticky
  cases exact with
  | true =>
    left
    rw [sharp.1 rfl]
    push_cast
    rfl
  | false =>
    have strict : (q : ℝ) < x := lower.lt_of_ne fun same => by simpa using sharp.2 same.symm
    refine .inr ⟨by rw [if_neg (by decide)]; omega, ?_⟩
    rw [if_neg (by decide), abs_lt]
    push_cast
    exact ⟨by linarith, by linarith⟩

theorem le_sticky (q : ℕ) (exact : Bool) : q ≤ sticky q exact := by
  unfold sticky
  split <;> omega

/-- The integer square root, bit by bit: the root is between `r` and `r` with all bits that are left. -/
theorem sqrtBits_eq {n bits r : ℕ} (lower : r * r ≤ n) (upper : n < (r + 2 ^ bits) * (r + 2 ^ bits)) :
    sqrtBits n bits r = Nat.sqrt n := by
  induction bits generalizing r with
  | zero => exact Nat.eq_sqrt.2 ⟨lower, upper⟩
  | succ bits ih =>
    rw [sqrtBits, twoPow_eq]
    split
    · next fits => exact ih fits (by rwa [Nat.add_assoc, ← Nat.two_mul, ← Nat.pow_succ'])
    · next beyond => exact ih lower (not_le.1 beyond)

theorem natSqrt_eq (n : ℕ) : natSqrt n = Nat.sqrt n := by
  refine sqrtBits_eq (Nat.zero_le n) ?_
  rw [Nat.zero_add]
  calc n < 2 ^ bitLength n := lt_twoPow_bitLength n
    _ ≤ 2 ^ bitLength n * 2 ^ bitLength n := Nat.le_mul_of_pos_left _ (Nat.two_pow_pos _)

namespace Dyadic

/-- The mantissa of a quotient stands for twice the quotient of the scaled mantissas. -/
theorem div_stands (x : Dyadic) {y : Dyadic} (nonzero : y.mant ≠ 0) :
    Stands (x.div y).mant (2 * ((x.mant * 2 ^ 60 : ℕ) / (y.mant : ℝ))) := by
  have mant : (x.div y).mant = sticky (x.mant * twoPow 60 / y.mant) (x.mant * twoPow 60 % y.mant == 0) := rfl
  rw [mant, twoPow_eq]
  generalize x.mant * 2 ^ 60 = n
  have floor : ⌊(n : ℝ) / y.mant⌋₊ = n / y.mant := Nat.floor_div_eq_div n y.mant
  have positive : (0 : ℝ) < y.mant := Nat.cast_pos.2 (Nat.pos_of_ne_zero nonzero)
  refine stands_sticky ?_ ?_ ?_
  · rw [← floor]
    exact Nat.floor_le (by positivity)
  · rw [← floor]
    exact Nat.lt_floor_add_one _
  · rw [beq_iff_eq, div_eq_iff positive.ne']
    norm_cast
    have division := Nat.div_add_mod' n y.mant
    constructor <;> intro h <;> omega

/-- A quotient keeps two bits more than are asked of it. -/
theorem bitLength_div {x y : Dyadic} (normal : 2 ^ 23 ≤ x.mant) (nonzero : y.mant ≠ 0) (small : y.mant < 2 ^ 24) :
    54 < bitLength (x.div y).mant := by
  have quotient : 2 ^ 54 ≤ x.mant * 2 ^ 60 / y.mant := by
    rw [Nat.le_div_iff_mul_le (Nat.pos_of_ne_zero nonzero)]
    omega
  exact lt_bitLength (quotient.trans (le_sticky _ _))

/-- Quotients are rounded to the nearest number, for mantissas of 24 bits. -/
theorem nearest_div {x y : Dyadic} (normal : x.mant = 0 ∨ 2 ^ 23 ≤ x.mant) (nonzero : y.mant ≠ 0)
    (small : y.mant < 2 ^ 24) : Nearest 53 (x.toReal / y.toReal) ((x.div y).round 53).toReal := by
  have quotient : x.magnitude / y.magnitude = 2 * ((x.mant * 2 ^ 60 : ℕ) / (y.mant : ℝ)) * 2 ^ (x.div y).exp := by
    have divisor : (y.mant : ℝ) ≠ 0 := Nat.cast_ne_zero.2 nonzero
    unfold div
    simp only [magnitude_eq]
    rw [show x.exp - y.exp - 61 = x.exp + -y.exp + -61 by ring, two_zpow_add, two_zpow_add, zpow_neg 2 y.exp]
    push_cast
    field_simp
    norm_num
  have nearest := nearest_round_of_stands (p := 53) (by decide) (x.div_stands nonzero) ?deep
  case deep =>
    intro inexact
    rcases normal with zero | large
    · refine absurd ?_ inexact
      rw [zero, Nat.zero_mul, Nat.cast_zero, zero_div, mul_zero]
      have none : (x.div y).mant = 0 := by simp [div, zero, sticky]
      rw [none, Nat.cast_zero]
    · have := bitLength_div large nonzero small
      omega
  convert nearest using 1
  rw [← quotient]
  show _ = if x.neg != y.neg then _ else _
  unfold toReal
  cases x.neg <;> cases y.neg <;> simp [neg_div, div_neg]

/-- How far the mantissa is shifted before its root is taken. -/
theorem sqrt_shift (x : Dyadic) : ∃ shift : ℕ, 100 ≤ shift ∧ (x.exp - shift) % 2 = 0 ∧
    x.sqrt.mant = sticky (natSqrt (x.mant * 2 ^ shift))
      (natSqrt (x.mant * 2 ^ shift) * natSqrt (x.mant * 2 ^ shift) == x.mant * 2 ^ shift) ∧
    x.sqrt.exp = (x.exp - shift) / 2 - 1 :=
  ⟨100 + (x.exp % 2).toNat, by omega, by omega, rfl, rfl⟩

theorem stands_sqrt (n : ℕ) : Stands (sticky (natSqrt n) (natSqrt n * natSqrt n == n)) (2 * √(n : ℝ)) := by
  rw [natSqrt_eq]
  refine stands_sticky Real.nat_sqrt_le_real_sqrt ?_ ?_
  · exact_mod_cast Real.real_sqrt_lt_nat_sqrt_succ
  · rw [beq_iff_eq, Real.sqrt_eq_iff_mul_self_eq (Nat.cast_nonneg _) (Nat.cast_nonneg _)]
    norm_cast
    exact eq_comm

/-- A root keeps two bits more than are asked of it. -/
theorem bitLength_sqrt {x : Dyadic} (normal : 2 ^ 23 ≤ x.mant) : 54 < bitLength x.sqrt.mant := by
  obtain ⟨shift, long, -, mant, -⟩ := x.sqrt_shift
  have large : 2 ^ 54 * 2 ^ 54 ≤ x.mant * 2 ^ shift := by
    calc 2 ^ 54 * 2 ^ 54 ≤ 2 ^ 23 * 2 ^ 100 := by norm_num
      _ ≤ x.mant * 2 ^ shift := Nat.mul_le_mul normal (Nat.pow_le_pow_right (by decide) long)
  rw [mant]
  refine lt_bitLength (le_trans ?_ (le_sticky _ _))
  rw [natSqrt_eq]
  exact Nat.le_sqrt.2 large

theorem nearest_sqrt {x : Dyadic} (normal : 2 ^ 23 ≤ x.mant) : Nearest 53 √|x.toReal| (x.sqrt.round 53).toReal := by
  have long := bitLength_sqrt normal
  obtain ⟨shift, -, even, mant, exp⟩ := x.sqrt_shift
  have stands := stands_sqrt (x.mant * 2 ^ shift)
  rw [← mant] at stands
  have nearest := nearest_round_of_stands (p := 53) (by decide) stands fun _ => by omega
  obtain ⟨h, half⟩ : ∃ h, x.exp - shift = h + h := ⟨(x.exp - shift) / 2, by omega⟩
  have root : √|x.toReal| = 2 * √((x.mant * 2 ^ shift : ℕ) : ℝ) * 2 ^ x.sqrt.exp := by
    have scaled : |x.toReal| = ((x.mant * 2 ^ shift : ℕ) : ℝ) * (2 ^ h * 2 ^ h) := by
      calc |x.toReal| = x.mant * 2 ^ ((shift : ℤ) + (h + h)) := by rw [abs_toReal, magnitude_eq]; congr 2; omega
        _ = x.mant * (2 ^ shift * (2 ^ h * 2 ^ h)) := by rw [two_zpow_add, two_zpow_add, zpow_natCast]
        _ = ((x.mant * 2 ^ shift : ℕ) : ℝ) * (2 ^ h * 2 ^ h) := by push_cast; ring
    rw [scaled, Real.sqrt_mul (Nat.cast_nonneg _), Real.sqrt_mul_self (two_zpow_pos h).le, exp, half,
      show (h + h) / 2 - 1 = h + -1 by omega, two_zpow_add, zpow_neg_one]
    ring
  rw [root]
  exact nearest

end Dyadic

end EmotionEngine
