import BinomialLogit.Logit
import Mathlib.Algebra.Order.Field.Basic
import Mathlib.Tactic.FieldSimp
import Mathlib.Tactic.Linarith
import Mathlib.Tactic.Positivity
import Mathlib.Tactic.Ring

/-! Odds and proportions over an exact ordered field. There the two undo each other, and the
derivative of the inverse link is the variance of the mean it belongs to. -/

namespace BinomialLogit
set_option autoImplicit false
universe u
variable {F : Type u} [Field F] [LinearOrder F] [IsStrictOrderedRing F]

section Proportions
variable {t m : F}

theorem proportion_pos (ht : 0 < t) : 0 < proportion t := by
  unfold proportion
  positivity

theorem one_sub_proportion (ht : 0 < t) : 1 - proportion t = 1 / (1 + t) := by
  have hne : 1 + t ≠ 0 := by positivity
  unfold proportion
  field_simp
  ring

theorem proportion_lt_one (ht : 0 < t) : proportion t < 1 := by
  have hpos : 0 < 1 - proportion t := by
    rw [one_sub_proportion ht]
    positivity
  linarith

theorem odds_proportion (ht : 0 < t) : proportion t / (1 - proportion t) = t := by
  have hne : 1 + t ≠ 0 := by positivity
  rw [one_sub_proportion ht]
  unfold proportion
  field_simp

omit [LinearOrder F] [IsStrictOrderedRing F] in
theorem proportion_odds (hm : 1 - m ≠ 0) : proportion (m / (1 - m)) = m := by
  have hsum : 1 + m / (1 - m) = 1 / (1 - m) := by
    field_simp
    ring
  unfold proportion
  rw [hsum, div_div_eq_mul_div, div_mul_cancel₀ m hm, div_one]

theorem varianceAt_proportion (ht : 0 < t) :
    varianceAt (proportion t) = t / ((1 + t) * (1 + t)) := by
  unfold varianceAt
  rw [one_sub_proportion ht, proportion, div_mul_div_comm, mul_one]

end Proportions

namespace Logit
variable (L : Logit F) {e : F}

omit [IsStrictOrderedRing F] in
theorem meanAt_of_not_saturated (h : ¬L.guards.Saturated e) : L.meanAt e = proportion (L.exp e) := by
  unfold meanAt Elementary.clampedExp
  rw [if_neg fun hlow => h (.inr hlow), if_neg fun hhigh => h (.inl hhigh)]

/-- Where nothing is saturated the derivative of the mean is its variance. -/
theorem slopeAt_eq_varianceAt (hexp : ∀ t, 0 < L.exp t) (h : ¬L.guards.Saturated e) :
    L.slopeAt e = varianceAt (L.meanAt e) := by
  rw [L.meanAt_of_not_saturated h, varianceAt_proportion (hexp e)]
  exact if_neg h

theorem slopeAt_pos_of_not_saturated (hexp : ∀ t, 0 < L.exp t) (h : ¬L.guards.Saturated e) :
    0 < L.slopeAt e := by
  have ht := hexp e
  unfold slopeAt
  rw [if_neg h]
  positivity

end Logit

end BinomialLogit
