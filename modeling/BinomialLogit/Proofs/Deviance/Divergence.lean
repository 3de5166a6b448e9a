import Mathlib.Analysis.SpecialFunctions.Log.Basic
import Mathlib.Tactic.Linarith
import Mathlib.Tactic.Positivity
import Mathlib.Tactic.Ring

/-! The exact divergence of a mean from a response. Its halves have opposite signs and nearly cancel
when the two are close, but the sum is at least the square of their distance, and neither half is
greater than the sum by more than twice the distance. -/

namespace BinomialLogit
set_option autoImplicit false

noncomputable def logRatio (a b : ℝ) : ℝ := a * Real.log (a / b)

section Half
variable {a b : ℝ} (ha : 0 < a) (hb : 0 < b)
include ha hb

theorem sub_le_logRatio : a - b ≤ logRatio a b := by
  have hlog := Real.one_sub_inv_le_log_of_pos (div_pos ha hb)
  rw [inv_div] at hlog
  calc a - b = a * (1 - b / a) := by field_simp
    _ ≤ logRatio a b := mul_le_mul_of_nonneg_left hlog ha.le

theorem abs_logRatio_le : |logRatio a b| ≤ logRatio a b + 2 * |a - b| := by
  have hlow := sub_le_logRatio ha hb
  have hdist := neg_abs_le (a - b)
  have hpos := abs_nonneg (a - b)
  rw [abs_le]
  constructor <;> linarith

/-- With squares for the arguments the logarithm halves. -/
theorem two_mul_sub_le_logRatio_sq : 2 * (a ^ 2 - a * b) ≤ logRatio (a ^ 2) (b ^ 2) := by
  have hlog : Real.log (a ^ 2 / b ^ 2) = 2 * Real.log (a / b) := by
    rw [← div_pow, Real.log_pow, Nat.cast_ofNat]
  have hle := sub_le_logRatio ha hb
  unfold logRatio at hle ⊢
  rw [hlog]
  calc 2 * (a ^ 2 - a * b) = 2 * a * (a - b) := by ring
    _ ≤ 2 * a * (a * Real.log (a / b)) := mul_le_mul_of_nonneg_left hle (by positivity)
    _ = a ^ 2 * (2 * Real.log (a / b)) := by ring

end Half

/-- Two points of the unit circle, with the squares of their coordinates compared. -/
theorem sq_sub_sq_le {a b c e : ℝ} (h : a ^ 2 + c ^ 2 = 1) (h' : b ^ 2 + e ^ 2 = 1) :
    (a ^ 2 - b ^ 2) ^ 2 ≤ 2 - 2 * (a * b + c * e) := by
  -- the distance of the squares is a product of a cosine and a sine
  have hsplit : a ^ 2 - b ^ 2 = (a * e - b * c) * (a * e + b * c) := by
    linear_combination b ^ 2 * h - a ^ 2 * h'
  have hcross : (a * e - b * c) ^ 2 = 1 - (a * b + c * e) ^ 2 := by
    linear_combination (b ^ 2 + e ^ 2) * h + h'
  have hsum : (a * e + b * c) ^ 2 ≤ 1 := by
    have hother : (a * e + b * c) ^ 2 = 1 - (a * b - c * e) ^ 2 := by
      linear_combination (b ^ 2 + e ^ 2) * h + h'
    rw [hother]
    linarith [sq_nonneg (a * b - c * e)]
  calc (a ^ 2 - b ^ 2) ^ 2 = (a * e - b * c) ^ 2 * (a * e + b * c) ^ 2 := by rw [hsplit, mul_pow]
    _ ≤ (a * e - b * c) ^ 2 := mul_le_of_le_one_right (sq_nonneg _) hsum
    _ = 1 - (a * b + c * e) ^ 2 := hcross
    _ ≤ 2 - 2 * (a * b + c * e) := by linarith [sq_nonneg (a * b + c * e - 1)]

/-- The exact divergence is at least the squared distance. -/
theorem sq_le_divergence {y m : ℝ} (hy0 : 0 < y) (hy1 : y < 1) (hm0 : 0 < m) (hm1 : m < 1) :
    (y - m) ^ 2 ≤ logRatio y m + logRatio (1 - y) (1 - m) := by
  have hy := Real.sq_sqrt hy0.le
  have hm := Real.sq_sqrt hm0.le
  have hy' := Real.sq_sqrt (sub_pos.mpr hy1).le
  have hm' := Real.sq_sqrt (sub_pos.mpr hm1).le
  have hsuccess := two_mul_sub_le_logRatio_sq (Real.sqrt_pos.mpr hy0) (Real.sqrt_pos.mpr hm0)
  have hfailure := two_mul_sub_le_logRatio_sq (Real.sqrt_pos.mpr (sub_pos.mpr hy1))
    (Real.sqrt_pos.mpr (sub_pos.mpr hm1))
  have hcircle := sq_sub_sq_le (a := √y) (b := √m) (c := √(1 - y)) (e := √(1 - m))
    (by rw [hy, hy']; ring) (by rw [hm, hm']; ring)
  rw [hy, hm] at hsuccess hcircle
  rw [hy', hm'] at hfailure
  linarith

end BinomialLogit
