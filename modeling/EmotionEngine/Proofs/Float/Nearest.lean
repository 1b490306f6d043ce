import EmotionEngine.Float.Dyadic
import Mathlib.Algebra.Order.Archimedean.Basic
import Mathlib.Algebra.Order.Round
import Mathlib.Algebra.Order.Archimedean.Real.Basic
import Mathlib.Tactic.GCongr
import Mathlib.Tactic.Linarith
import Mathlib.Tactic.Positivity
import Mathlib.Tactic.Ring

/-!
Rounding of real numbers to a number of bits.

1. A number is on the grid of `k` if it is a multiple of `2 ^ k` (`OnGrid`), and has at most `p` bits if it is such
   a multiple by a number of `p` bits (`Fits`). The one makes the other: a small number on a coarse grid fits
   (`OnGrid.fits`), and a large number that fits is on a coarse grid (`Fits.onGrid`).
2. `Nearest p r z` says that `z` is the number of `p` bits nearest to `r`, and the even one of two. It never
   crosses a number of `p` bits (`Nearest.le`, `Nearest.ge`); that it is exact where it can be, keeps grids and has
   a small error follows from this.
3. Between two powers of two the numbers of `p` bits are a grid, so that only its points have to be compared
   (`nearest_of_grid`).
-/

namespace EmotionEngine.Rounding

theorem two_zpow_pos (k : ℤ) : (0 : ℝ) < 2 ^ k := zpow_pos (by norm_num) k

theorem two_zpow_add (j k : ℤ) : (2 : ℝ) ^ (j + k) = 2 ^ j * 2 ^ k := zpow_add₀ (by norm_num) j k

theorem two_zpow_le {j k : ℤ} (h : j ≤ k) : (2 : ℝ) ^ j ≤ 2 ^ k := zpow_le_zpow_right₀ (by norm_num) h

theorem two_zpow_lt {j k : ℤ} : (2 : ℝ) ^ j < 2 ^ k ↔ j < k := zpow_lt_zpow_iff_right₀ (by norm_num)

/-! ## Grids -/

/-- A multiple of `2 ^ k`. -/
def OnGrid (k : ℤ) (x : ℝ) : Prop := ∃ n : ℤ, x = n * 2 ^ k

namespace OnGrid

variable {k : ℤ} {x y : ℝ}

theorem zero (k : ℤ) : OnGrid k 0 := ⟨0, by simp⟩

theorem pow (k : ℤ) : OnGrid k (2 ^ k) := ⟨1, by simp⟩

theorem neg (h : OnGrid k x) : OnGrid k (-x) := by
  obtain ⟨n, rfl⟩ := h
  exact ⟨-n, by push_cast; ring⟩

theorem add (hx : OnGrid k x) (hy : OnGrid k y) : OnGrid k (x + y) := by
  obtain ⟨m, rfl⟩ := hx
  obtain ⟨n, rfl⟩ := hy
  exact ⟨m + n, by push_cast; ring⟩

theorem sub (hx : OnGrid k x) (hy : OnGrid k y) : OnGrid k (x - y) := by
  rw [sub_eq_add_neg]
  exact hx.add hy.neg

theorem mono {l : ℤ} (h : OnGrid l x) (le : k ≤ l) : OnGrid k x := by
  obtain ⟨n, rfl⟩ := h
  obtain ⟨d, rfl⟩ := Int.le.dest le
  exact ⟨n * 2 ^ d, by rw [two_zpow_add, zpow_natCast]; push_cast; ring⟩

theorem abs (h : OnGrid k x) : OnGrid k |x| := by
  rcases abs_choice x with same | same <;> rw [same]
  · exact h
  · exact h.neg

/-- No number of a grid but zero is smaller than its unit. -/
theorem unit_le (h : OnGrid k x) (nonzero : x ≠ 0) : 2 ^ k ≤ |x| := by
  obtain ⟨n, rfl⟩ := h
  have one : (1 : ℝ) ≤ |(n : ℝ)| := by
    rw [← Int.cast_abs]
    exact_mod_cast Int.one_le_abs fun zero => nonzero (by simp [zero])
  rw [abs_mul, abs_of_pos (two_zpow_pos k)]
  exact le_mul_of_one_le_left (two_zpow_pos k).le one

end OnGrid

/-! ## Numbers of some bits -/

/-- A number with at most `p` bits. -/
def Fits (p : ℕ) (x : ℝ) : Prop := ∃ m k : ℤ, |m| < 2 ^ p ∧ x = m * 2 ^ k

namespace Fits

variable {p : ℕ} {k : ℤ} {x y : ℝ}

theorem zero (p : ℕ) : Fits p 0 := ⟨0, 0, by simp, by simp⟩

theorem neg (h : Fits p x) : Fits p (-x) := by
  obtain ⟨m, k, small, rfl⟩ := h
  exact ⟨-m, k, by rwa [abs_neg], by push_cast; ring⟩

theorem abs (h : Fits p x) : Fits p |x| := by
  rcases abs_choice x with same | same <;> rw [same]
  · exact h
  · exact h.neg

theorem of_abs (h : Fits p |x|) : Fits p x := by
  rcases abs_choice x with same | same <;> rw [same] at h
  · exact h
  · exact neg_neg x ▸ h.neg

theorem mono {q : ℕ} (h : Fits p x) (le : p ≤ q) : Fits q x := by
  obtain ⟨m, k, small, same⟩ := h
  exact ⟨m, k, small.trans_le (pow_le_pow_right₀ (by norm_num) le), same⟩

theorem mul {q : ℕ} (hx : Fits p x) (hy : Fits q y) : Fits (p + q) (x * y) := by
  obtain ⟨m, j, small, rfl⟩ := hx
  obtain ⟨n, k, small', rfl⟩ := hy
  refine ⟨m * n, j + k, ?_, by rw [two_zpow_add]; push_cast; ring⟩
  rw [abs_mul, pow_add]
  exact mul_lt_mul'' small small' (abs_nonneg m) (abs_nonneg n)

theorem pow (positive : 0 < p) (k : ℤ) : Fits p (2 ^ k) :=
  ⟨1, k, by rw [abs_one]; exact one_lt_pow₀ one_lt_two positive.ne', by simp⟩

theorem exists_grid (h : Fits p x) : ∃ k, OnGrid k x ∧ |x| < 2 ^ ((p : ℤ) + k) := by
  obtain ⟨m, k, small, rfl⟩ := h
  have bound : |(m : ℝ)| < (2 : ℝ) ^ (p : ℤ) := by
    rw [zpow_natCast, ← Int.cast_abs]
    exact_mod_cast small
  refine ⟨k, ⟨m, rfl⟩, ?_⟩
  rw [abs_mul, abs_of_pos (two_zpow_pos k), two_zpow_add]
  exact mul_lt_mul_of_pos_right bound (two_zpow_pos k)

theorem small (h : Fits p x) (off : ¬ OnGrid k x) : |x| < 2 ^ ((p : ℤ) - 1 + k) := by
  obtain ⟨e, grid, small⟩ := h.exists_grid
  have fine : e ≤ k - 1 := by
    by_contra coarse
    exact off (grid.mono (by omega))
  exact small.trans_le (two_zpow_le (by omega))

/-- A large number of `p` bits is on a coarse grid. -/
theorem onGrid (h : Fits p x) (large : 2 ^ ((p : ℤ) - 1 + k) ≤ |x|) : OnGrid k x := by
  by_contra off
  exact absurd (h.small off) large.not_gt

end Fits

/-- A small number on a grid has few bits. -/
theorem OnGrid.fits {p : ℕ} {k : ℤ} {x : ℝ} (h : OnGrid k x) (small : |x| < 2 ^ ((p : ℤ) + k)) : Fits p x := by
  obtain ⟨n, rfl⟩ := h
  refine ⟨n, k, ?_, rfl⟩
  rw [abs_mul, abs_of_pos (two_zpow_pos k), two_zpow_add, mul_lt_mul_iff_left₀ (two_zpow_pos k), zpow_natCast,
    ← Int.cast_abs] at small
  exact_mod_cast small

theorem OnGrid.fits_of_le {p : ℕ} {k : ℤ} {x : ℝ} (h : OnGrid k x) (positive : 0 < p)
    (small : |x| ≤ 2 ^ ((p : ℤ) + k)) : Fits p x := by
  rcases small.lt_or_eq with below | same
  · exact h.fits below
  · rcases abs_choice x with sign | sign <;> rw [sign] at same
    · rw [same]
      exact Fits.pow positive _
    · rw [← neg_neg x, same]
      exact (Fits.pow positive _).neg

/-- Two numbers of few bits that are very close to each other are the same: their difference is on the finer of
their grids, and smaller than its unit. -/
theorem Fits.eq_of_close {p q : ℕ} {a b : ℝ} {t : ℤ} (ha : Fits p a) (hb : Fits q b)
    (close : |a - b| ≤ |a| * 2 ^ (-t)) (hp : (p : ℤ) ≤ t) (hq : (q : ℤ) < t) : a = b := by
  by_contra other
  have apart : a - b ≠ 0 := sub_ne_zero.2 other
  obtain ⟨e, grid, small⟩ := ha.exists_grid
  obtain ⟨f, grid', small'⟩ := hb.exists_grid
  rcases le_total e f with finer | finer
  · have bound : (2 : ℝ) ^ e < 2 ^ e := by
      calc (2 : ℝ) ^ e ≤ |a - b| := (grid.sub (grid'.mono finer)).unit_le apart
        _ ≤ |a| * 2 ^ (-t) := close
        _ < 2 ^ ((p : ℤ) + e) * 2 ^ (-t) := mul_lt_mul_of_pos_right small (two_zpow_pos _)
        _ = 2 ^ ((p : ℤ) + e + -t) := (two_zpow_add _ _).symm
        _ ≤ 2 ^ e := two_zpow_le (by omega)
    exact bound.false
  · have half : (2 : ℝ) ^ (-t) ≤ 2⁻¹ := by
      rw [← zpow_neg_one]
      exact two_zpow_le (by omega)
    -- The numbers are of the same size.
    have size : |a| < 2 ^ ((q : ℤ) + f + 1) := by
      have sum : |a| ≤ |a - b| + |b| := by
        simpa using abs_add_le (a - b) b
      have part : |a| * 2 ^ (-t) ≤ |a| * 2⁻¹ := mul_le_mul_of_nonneg_left half (abs_nonneg a)
      rw [zpow_add_one₀ (by norm_num)]
      linarith
    have bound : (2 : ℝ) ^ f < 2 ^ f := by
      calc (2 : ℝ) ^ f ≤ |a - b| := ((grid.mono finer).sub grid').unit_le apart
        _ ≤ |a| * 2 ^ (-t) := close
        _ < 2 ^ ((q : ℤ) + f + 1) * 2 ^ (-t) := mul_lt_mul_of_pos_right size (two_zpow_pos _)
        _ = 2 ^ ((q : ℤ) + f + 1 + -t) := (two_zpow_add _ _).symm
        _ ≤ 2 ^ f := two_zpow_le (by omega)
    exact bound.false

/-! ## The nearest number -/

/-- `z` is the number of `p` bits that is nearest to `r`, and the even one of two that are. -/
structure Nearest (p : ℕ) (r z : ℝ) : Prop where
  fits : Fits p z
  near : ∀ y, Fits p y → |r - z| ≤ |r - y|
  even : ∀ y, Fits p y → y ≠ z → |r - y| = |r - z| → Fits (p - 1) z

namespace Nearest

variable {p : ℕ} {r z : ℝ}

theorem neg (h : Nearest p r z) : Nearest p (-r) (-z) where
  fits := h.fits.neg
  near y fits := by
    have near := h.near (-y) fits.neg
    rwa [← abs_neg, show -(-r - -z) = r - z by ring, ← abs_neg (-r - y), show -(-r - y) = r - -y by ring]
  even y fits other same := by
    refine (h.even (-y) fits.neg (fun eq => other (by rw [← eq, neg_neg])) ?_).neg
    rw [← abs_neg (r - -y), ← abs_neg (r - z), show -(r - -y) = -r - y by ring, show -(r - z) = -r - -z by ring, same]

/-- Rounding does not pass a number of `p` bits from below. -/
theorem le (h : Nearest p r z) {y : ℝ} (fits : Fits p y) (le : r ≤ y) : z ≤ y := by
  by_contra beyond
  have near := h.near y fits
  rw [abs_of_nonpos (by linarith), abs_of_nonpos (by linarith)] at near
  linarith

/-- Nor from above. -/
theorem ge (h : Nearest p r z) {y : ℝ} (fits : Fits p y) (ge : y ≤ r) : y ≤ z := by
  have reflected := h.neg.le fits.neg (neg_le_neg ge)
  linarith

theorem eq_of_fits (h : Nearest p r z) (fits : Fits p r) : z = r := le_antisymm (h.le fits le_rfl) (h.ge fits le_rfl)

theorem abs (h : Nearest p r z) : Nearest p |r| |z| := by
  rcases le_total 0 r with sign | sign
  · rwa [abs_of_nonneg sign, abs_of_nonneg (h.ge (.zero p) sign)]
  · rw [abs_of_nonpos sign, abs_of_nonpos (h.le (.zero p) sign)]
    exact h.neg

/-- A number of a grid is rounded to one of it. -/
theorem onGrid (h : Nearest p r z) (positive : 0 < p) {k : ℤ} (grid : OnGrid k r) : OnGrid k z := by
  rcases lt_or_ge |r| (2 ^ ((p : ℤ) + k)) with small | large
  · rw [h.eq_of_fits (grid.fits small)]
    exact grid
  · exact h.fits.onGrid (h.abs.ge (.pow positive _) ((two_zpow_le (by omega)).trans large))

end Nearest

/-! ## Where the numbers of some bits are a grid -/

theorem half_add_half (k : ℤ) : (2 : ℝ) ^ (k - 1) + 2 ^ (k - 1) = 2 ^ k := by
  rw [← mul_two, ← zpow_add_one₀ (by norm_num), sub_add_cancel]

/-- A number off the grid is further away than the point of the grid that is nearest, if the numbers of `p` bits
around `r` are on the grid. -/
theorem near_of_off {p : ℕ} {k : ℤ} {r z y : ℝ} (positive : 0 < p) (large : 2 ^ ((p : ℤ) - 1 + k) ≤ |r|)
    (near : ∀ y, OnGrid k y → |r - z| ≤ |r - y|) (fits : Fits p y) (off : ¬ OnGrid k y) : |r - z| < |r - y| := by
  -- The power of two between them is on the grid.
  have grid : OnGrid k (2 ^ ((p : ℤ) - 1 + k)) := (OnGrid.pow _).mono (by omega)
  obtain ⟨b, grid', distance⟩ : ∃ b, OnGrid k b ∧ |r - b| = |r| - 2 ^ ((p : ℤ) - 1 + k) := by
    rcases le_total 0 r with sign | sign
    · rw [abs_of_nonneg sign] at large ⊢
      exact ⟨_, grid, abs_of_nonneg (by linarith)⟩
    · rw [abs_of_nonpos sign] at large ⊢
      refine ⟨_, grid.neg, ?_⟩
      rw [abs_of_nonpos (by linarith)]
      ring
  calc |r - z| ≤ |r - b| := near b grid'
    _ = |r| - 2 ^ ((p : ℤ) - 1 + k) := distance
    _ < |r| - |y| := by linarith [fits.small off]
    _ ≤ |r - y| := abs_sub_abs_le_abs_sub r y

/-- A point of the grid at most half a unit away is nearest, if it is even where it is half a unit away. -/
theorem nearest_of_grid {p : ℕ} {k : ℤ} {r z : ℝ} (positive : 0 < p) (large : 2 ^ ((p : ℤ) - 1 + k) ≤ |r|)
    (fits : Fits p z) (grid : OnGrid k z) (near : |r - z| ≤ 2 ^ (k - 1))
    (even : |r - z| = 2 ^ (k - 1) → Fits (p - 1) z) : Nearest p r z := by
  have other (y : ℝ) (grid' : OnGrid k y) (other : y ≠ z) : 2 ^ (k - 1) ≤ |r - y| := by
    have apart := (grid'.sub grid).unit_le (sub_ne_zero.2 other)
    have sum : |y - z| ≤ |r - y| + |r - z| := by
      rw [abs_sub_comm r y]
      exact abs_sub_le y r z
    linarith [half_add_half k]
  have nearest (y : ℝ) (grid' : OnGrid k y) : |r - z| ≤ |r - y| := by
    by_cases same : y = z
    · rw [same]
    · exact near.trans (other y grid' same)
  refine ⟨fits, fun y fits' => ?_, fun y fits' different same => ?_⟩
  · by_cases grid' : OnGrid k y
    · exact nearest y grid'
    · exact (near_of_off positive large nearest fits' grid').le
  · by_cases grid' : OnGrid k y
    · exact even (near.antisymm (same ▸ other y grid' different))
    · exact absurd same (near_of_off positive large nearest fits' grid').ne'

theorem exists_close {p : ℕ} (positive : 0 < p) (r : ℝ) : ∃ y, Fits p y ∧ |r - y| ≤ |r| * 2 ^ (-(p : ℤ)) := by
  by_cases zero : r = 0
  · exact ⟨0, .zero p, by simp [zero]⟩
  · obtain ⟨n, lower, upper⟩ := exists_mem_Ico_zpow (abs_pos.2 zero) (one_lt_two : (1 : ℝ) < 2)
    -- The unit of the numbers of `p` bits around `r`.
    obtain ⟨k, rfl⟩ : ∃ k, n = (p : ℤ) - 1 + k := ⟨n - (p - 1), by ring⟩
    have unit := two_zpow_pos k
    have half : |r / 2 ^ k - round (r / 2 ^ k)| ≤ 1 / 2 := abs_sub_round _
    have scale : r = r / 2 ^ k * 2 ^ k := (div_mul_cancel₀ r unit.ne').symm
    have close : |r - round (r / 2 ^ k) * 2 ^ k| ≤ 2 ^ (k - 1) := by
      calc |r - round (r / 2 ^ k) * 2 ^ k| = |(r / 2 ^ k - round (r / 2 ^ k)) * 2 ^ k| := by rw [sub_mul, ← scale]
        _ = |r / 2 ^ k - round (r / 2 ^ k)| * 2 ^ k := by rw [abs_mul, abs_of_pos unit]
        _ ≤ 1 / 2 * 2 ^ k := mul_le_mul_of_nonneg_right half unit.le
        _ = 2 ^ (k - 1) := by rw [← half_add_half k]; ring
    refine ⟨round (r / 2 ^ k) * 2 ^ k, ?_, close.trans ?_⟩
    · refine OnGrid.fits_of_le ⟨_, rfl⟩ positive ?_
      have size : |r / 2 ^ k| < 2 ^ (p : ℤ) := by
        rw [abs_div, abs_of_pos unit, div_lt_iff₀ unit, ← two_zpow_add]
        exact upper.trans_le (two_zpow_le (by omega))
      have rounded : |round (r / 2 ^ k)| < 2 ^ p + 1 := by
        have sum : |(round (r / 2 ^ k) : ℝ)| ≤ |r / 2 ^ k - round (r / 2 ^ k)| + |r / 2 ^ k| := by
          rw [abs_sub_comm]
          exact (abs_add_le _ _).trans' (by rw [sub_add_cancel])
        rw [zpow_natCast] at size
        rw [← Int.cast_abs] at sum
        exact_mod_cast (by linarith : ((|round (r / 2 ^ k)| : ℤ) : ℝ) < 2 ^ p + 1)
      have whole : |(round (r / 2 ^ k) : ℝ)| ≤ 2 ^ (p : ℤ) := by
        rw [zpow_natCast, ← Int.cast_abs]
        exact_mod_cast Int.lt_add_one_iff.1 rounded
      rw [abs_mul, abs_of_pos unit, two_zpow_add]
      exact mul_le_mul_of_nonneg_right whole unit.le
    · calc (2 : ℝ) ^ (k - 1) = 2 ^ ((p : ℤ) - 1 + k) * 2 ^ (-(p : ℤ)) := by rw [← two_zpow_add]; congr 1; ring
        _ ≤ |r| * 2 ^ (-(p : ℤ)) := mul_le_mul_of_nonneg_right lower (two_zpow_pos _).le

theorem Nearest.error {p : ℕ} {r z : ℝ} (h : Nearest p r z) (positive : 0 < p) : |r - z| ≤ |r| * 2 ^ (-(p : ℤ)) := by
  obtain ⟨y, fits, close⟩ := exists_close positive r
  exact (h.near y fits).trans close

end EmotionEngine.Rounding
