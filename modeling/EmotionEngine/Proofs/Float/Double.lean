import EmotionEngine.Float.Dyadic
import EmotionEngine.Proofs.Float.Round

/-!
Double-precision arithmetic on numbers of 24 bits.

1. Every operation gives the nearest number of 53 bits, and the exact one where that has no more (`sub_eq`).
2. What a sum loses is recovered exactly (`twoSum_exact`): every difference that is formed on the way is on the grid
   of the smaller number, and hardly larger than it.
3. A quotient or a square root that rounds to a number of 24 bits is that number (`div_separated`,
   `sqrt_separated`), because otherwise a product of 48 bits would come closer to a number of 24 bits than it can.
-/

namespace EmotionEngine.Double

open Rounding

variable (x y : Dyadic)

theorem nearest_add : Nearest 53 (x.toReal + y.toReal) (add x y).toReal := by
  rw [← Dyadic.toReal_add]
  exact Dyadic.nearest_round (by decide) _

theorem nearest_sub : Nearest 53 (x.toReal - y.toReal) (sub x y).toReal := by
  rw [sub_eq_add_neg, ← Dyadic.toReal_negate]
  exact nearest_add x y.negate

theorem nearest_mul : Nearest 53 (x.toReal * y.toReal) (mul x y).toReal := by
  rw [← Dyadic.toReal_mul]
  exact Dyadic.nearest_round (by decide) _

/-! ## Sums -/

variable {x y}

/-- What is rounded is exact if it is on a grid and not much larger than its unit. -/
theorem eq_of_small {k : ℤ} {r z b : ℝ} (nearest : Nearest 53 r z) (grid : OnGrid k r) (bound : |r| ≤ 2 * b)
    (small : b < 2 ^ (24 + k)) : z = r := by
  refine nearest.eq_of_fits (grid.fits (bound.trans_lt ?_))
  calc 2 * b < 2 * 2 ^ (24 + k) := by linarith
    _ = 2 ^ (1 + (24 + k)) := by rw [two_zpow_add 1, zpow_one]
    _ ≤ 2 ^ (((53 : ℕ) : ℤ) + k) := two_zpow_le (by push_cast; omega)

/-- The last step of `twoSum`: both parts and their sum are exact if they are small. -/
theorem lost_eq {k : ℤ} {s t : Dyadic} {b : ℝ} (first : OnGrid k (x.toReal - t.toReal))
    (second : OnGrid k (y.toReal - s.toReal))
    (bound : |x.toReal - t.toReal| ≤ 2 * b) (bound' : |y.toReal - s.toReal| ≤ 2 * b)
    (total : |x.toReal - t.toReal + (y.toReal - s.toReal)| ≤ 2 * b) (small : b < 2 ^ (24 + k)) :
    (add (sub x t) (sub y s)).toReal = x.toReal - t.toReal + (y.toReal - s.toReal) := by
  have hx := eq_of_small (nearest_sub x t) first bound small
  have hy := eq_of_small (nearest_sub y s) second bound' small
  have nearest := nearest_add (sub x t) (sub y s)
  rw [hx, hy] at nearest
  exact eq_of_small nearest (first.add second) total small

/-- If the second term is on the finer grid, all of the first is in the sum. -/
theorem twoSum_exact_second {k : ℤ} (fits : Fits 53 x.toReal) (gx : OnGrid k x.toReal) (gy : OnGrid k y.toReal)
    (small : |y.toReal| < 2 ^ (24 + k)) :
    (twoSum x y).2.toReal = x.toReal + y.toReal - (twoSum x y).1.toReal := by
  have gs : OnGrid k (add x y).toReal := (nearest_add x y).onGrid (by decide) (gx.add gy)
  have lost : |x.toReal + y.toReal - (add x y).toReal| ≤ |y.toReal| := by
    simpa using (nearest_add x y).near x.toReal fits
  unfold twoSum
  dsimp only
  generalize add x y = s at gs lost ⊢
  have second : (sub s x).toReal = s.toReal - x.toReal := by
    refine eq_of_small (nearest_sub s x) (gs.sub gx) ?_ small
    have sum := abs_sub y.toReal (x.toReal + y.toReal - s.toReal)
    rw [show y.toReal - (x.toReal + y.toReal - s.toReal) = s.toReal - x.toReal by ring] at sum
    linarith
  generalize sub s x = b at second ⊢
  have first : (sub s b).toReal = x.toReal := by
    have same : s.toReal - b.toReal = x.toReal := by rw [second]; ring
    rw [(nearest_sub s b).eq_of_fits (by rwa [same]), same]
  have rest : y.toReal - b.toReal = x.toReal + y.toReal - s.toReal := by rw [second]; ring
  have bound : |y.toReal - b.toReal| ≤ 2 * |y.toReal| := by
    rw [rest]
    linarith [abs_nonneg y.toReal]
  rw [lost_eq (k := k) (b := |y.toReal|) ?_ ?_ ?_ bound ?_ small, first, rest]
  · ring
  · rw [first, sub_self]
    exact .zero k
  · rw [rest]
    exact (gx.add gy).sub gs
  · rw [first, sub_self, abs_zero]
    positivity
  · rwa [first, sub_self, zero_add]

/-- If the first term is on the finer grid, what is recovered of the second may be rounded, but then nothing is lost
of what is missing. -/
theorem twoSum_exact_first {k : ℤ} (fits : Fits 53 y.toReal) (gx : OnGrid k x.toReal) (gy : OnGrid k y.toReal)
    (small : |x.toReal| < 2 ^ (24 + k)) :
    (twoSum x y).2.toReal = x.toReal + y.toReal - (twoSum x y).1.toReal := by
  have gs : OnGrid k (add x y).toReal := (nearest_add x y).onGrid (by decide) (gx.add gy)
  have lost : |x.toReal + y.toReal - (add x y).toReal| ≤ |x.toReal| := by
    simpa using (nearest_add x y).near y.toReal fits
  unfold twoSum
  dsimp only
  generalize add x y = s at gs lost ⊢
  have gb : OnGrid k (sub s x).toReal := (nearest_sub s x).onGrid (by decide) (gs.sub gx)
  have missing : |s.toReal - x.toReal - (sub s x).toReal| ≤ |x.toReal| := by
    refine ((nearest_sub s x).near y.toReal fits).trans ?_
    rwa [abs_sub_comm, show y.toReal - (s.toReal - x.toReal) = x.toReal + y.toReal - s.toReal by ring]
  generalize sub s x = b at gb missing ⊢
  have first : (sub s b).toReal = s.toReal - b.toReal := by
    refine eq_of_small (nearest_sub s b) (gs.sub gb) ?_ small
    have sum := abs_add_le x.toReal (s.toReal - x.toReal - b.toReal)
    rw [show x.toReal + (s.toReal - x.toReal - b.toReal) = s.toReal - b.toReal by ring] at sum
    linarith
  rw [lost_eq (k := k) (b := |x.toReal|) ?_ (gy.sub gb) ?_ ?_ ?_ small, first]
  · ring
  · rw [first]
    exact gx.sub (gs.sub gb)
  · rw [first, abs_sub_comm, show s.toReal - b.toReal - x.toReal = s.toReal - x.toReal - b.toReal by ring]
    linarith [abs_nonneg x.toReal]
  · have sum := abs_add_le (x.toReal + y.toReal - s.toReal) (s.toReal - x.toReal - b.toReal)
    rw [show x.toReal + y.toReal - s.toReal + (s.toReal - x.toReal - b.toReal) = y.toReal - b.toReal by ring] at sum
    linarith
  · rw [first, show x.toReal - (s.toReal - b.toReal) + (y.toReal - b.toReal) = x.toReal + y.toReal - s.toReal by ring]
    linarith [abs_nonneg x.toReal]

/-- What a sum of numbers of 24 bits loses is recovered exactly. -/
theorem twoSum_exact (hx : Fits 24 x.toReal) (hy : Fits 24 y.toReal) :
    (twoSum x y).2.toReal = x.toReal + y.toReal - (twoSum x y).1.toReal := by
  obtain ⟨j, gx, small⟩ := hx.exists_grid
  obtain ⟨k, gy, small'⟩ := hy.exists_grid
  rcases le_total k j with finer | finer
  · exact twoSum_exact_second (hx.mono (by decide)) (gx.mono finer) gy small'
  · exact twoSum_exact_first (hy.mono (by decide)) gx (gy.mono finer) small

/-! ## Quotients and square roots -/

/-- A quotient that is rounded to a number of 24 bits is that number. -/
theorem div_separated {a b h : ℝ} (ha : Fits 24 a) (hb : Fits 24 b) (nonzero : b ≠ 0) (nearest : Nearest 53 (a / b) h)
    (fits : Fits 24 h) : a / b = h := by
  have product : Fits 48 (h * b) := fits.mul hb
  refine (div_eq_iff nonzero).2 (ha.eq_of_close product (t := 53) ?_ (by norm_num) (by norm_num))
  calc |a - h * b| = |a / b - h| * |b| := by rw [← abs_mul, sub_mul, div_mul_cancel₀ a nonzero]
    _ ≤ |a / b| * 2 ^ (-53 : ℤ) * |b| := mul_le_mul_of_nonneg_right (nearest.error (by decide)) (abs_nonneg b)
    _ = |a| * 2 ^ (-53 : ℤ) := by rw [abs_div]; field_simp

/-- A square root that is rounded to a number of 24 bits is that number. -/
theorem sqrt_separated {a h : ℝ} (ha : Fits 24 a) (nonneg : 0 ≤ a) (nearest : Nearest 53 √a h) (fits : Fits 24 h) :
    √a = h := by
  have square : Fits 48 (h * h) := fits.mul fits
  have positive : 0 ≤ h := nearest.ge (.zero 53) (Real.sqrt_nonneg a)
  rw [Real.sqrt_eq_iff_mul_self_eq nonneg positive]
  have root : √a * √a = a := Real.mul_self_sqrt nonneg
  have above : 0 ≤ √a := Real.sqrt_nonneg a
  have error : |√a - h| ≤ √a * 2 ^ (-53 : ℤ) := by
    have relative := nearest.error (by decide)
    rw [abs_of_nonneg above] at relative
    exact_mod_cast relative
  have unit : (2 : ℝ) ^ (-53 : ℤ) ≤ 1 := two_zpow_le (show (-53 : ℤ) ≤ 0 by decide)
  have size : √a + h ≤ 4 * √a := by
    have part : √a * 2 ^ (-53 : ℤ) ≤ √a := mul_le_of_le_one_right above unit
    linarith [(abs_le.1 error).1]
  refine ha.eq_of_close square (t := 51) ?_ (by norm_num) (by norm_num)
  calc |a - h * h| = |√a - h| * (√a + h) := by
        have factors : a - h * h = (√a - h) * (√a + h) := by
          calc a - h * h = √a * √a - h * h := by rw [root]
            _ = (√a - h) * (√a + h) := by ring
        rw [factors, abs_mul, abs_of_nonneg (add_nonneg above positive)]
    _ ≤ √a * 2 ^ (-53 : ℤ) * (4 * √a) := mul_le_mul error size (add_nonneg above positive) (by positivity)
    _ = |a| * 2 ^ (-51 : ℤ) := by
        rw [abs_of_nonneg nonneg, show (-51 : ℤ) = -53 + 2 by decide, two_zpow_add]
        calc √a * 2 ^ (-53 : ℤ) * (4 * √a) = √a * √a * (2 ^ (-53 : ℤ) * 4) := by ring
          _ = a * (2 ^ (-53 : ℤ) * 2 ^ (2 : ℤ)) := by rw [root]; norm_num

end EmotionEngine.Double
