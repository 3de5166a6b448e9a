import BinomialLogit.Proofs.Decimal.Literal
import BinomialLogit.Proofs.Recycling.Faults

/-! The starting mean of an observation. With a weight that is not negative it is a proportion or a
NaN: the numerator is half a trial short of the denominator at least, and rounding keeps the order
of the two. -/

namespace BinomialLogit
set_option autoImplicit false
open Binary64

def Beyond (m : Binary64) : Prop := m < 0 ∨ 1 < m

theorem exact_half : (0.5 : Binary64).IsFinite ∧ (0.5 : Binary64).value = 1 / 2 ^ 1 :=
  literal_exact (by norm_num) (by norm_num) (isValue_one_div_two_pow (by norm_num)) (by norm_num)

theorem isFinite_half : (0.5 : Binary64).IsFinite := exact_half.1

theorem value_half : (0.5 : Binary64).value = 1 / 2 := exact_half.2.trans (by norm_num)

section Finite
variable {v w x : Binary64}

theorem inUnit_iff : InUnit v ↔ v.IsFinite ∧ 0 ≤ v.value ∧ v.value ≤ 1 := by
  constructor
  · intro h
    obtain ⟨h0, h1⟩ := h
    have hv : v.IsFinite := isFinite_of_le_of_le isFinite_numeral_zero isFinite_one h0 h1
    exact ⟨hv, hv.nonneg_iff.mp h0, hv.le_one_iff.mp h1⟩
  · intro h
    obtain ⟨hv, h0, h1⟩ := h
    exact ⟨hv.nonneg_iff.mpr h0, hv.le_one_iff.mpr h1⟩

theorem not_beyond_of_inUnit (h : InUnit v) : ¬Beyond v := by
  intro hbeyond
  rcases hbeyond with hlow | hhigh
  · exact Binary64.not_le_of_lt hlow h.1
  · exact Binary64.not_le_of_lt hhigh h.2

theorem not_beyond_nan : ¬Beyond .nan := by
  intro hbeyond
  rcases hbeyond with hlow | hhigh
  · exact ne_nan_of_le_left (Binary64.le_of_lt hlow) rfl
  · exact ne_nan_of_le_right (Binary64.le_of_lt hhigh) rfl

/-- Adding up to one to the greatest double does not overflow. -/
theorem isFinite_add (hw : w.IsFinite) (hx : x.IsFinite) (h0 : 0 ≤ w.value) (hx0 : 0 ≤ x.value)
    (hx1 : x.value ≤ 1) : (w + x).IsFinite := by
  apply (rounds_add hw hx).isFinite
  have hmax := (abs_le.mp w.abs_value_le_max).2
  have hgap : (2 : ℚ) ^ (971 : ℤ) = 2 ^ (970 : ℤ) + 2 ^ (970 : ℤ) := by
    rw [show (971 : ℤ) = 970 + 1 by norm_num, zpow_add_one₀ (by norm_num)]
    ring
  have hone : (1 : ℚ) < 2 ^ (970 : ℤ) := one_lt_zpow₀ (by norm_num) (by norm_num)
  rw [abs_of_nonneg (add_nonneg h0 hx0)]
  rw [hgap] at hmax
  generalize (2 : ℚ) ^ (970 : ℤ) = spacing at hmax hone ⊢
  generalize (2 : ℚ) ^ (1024 : ℤ) = bound at hmax ⊢
  linarith

/-- The steps of a starting mean before the last: successes, numerator and denominator are rounded,
and none of them leaves the finite numbers. -/
structure StartingParts (v w : Binary64) : Prop where
  successes : Rounds (w.value * v.value) (w * v)
  successes_finite : (w * v).IsFinite
  successes_nonneg : 0 ≤ (w * v).value
  successes_le : (w * v).value ≤ w.value
  numerator : Rounds ((w * v).value + 1 / 2) (w * v + 0.5)
  numerator_finite : (w * v + 0.5).IsFinite
  denominator : Rounds (w.value + 1) (w + 1)
  denominator_finite : (w + 1).IsFinite

theorem startingParts (hv : InUnit v) (hw : w.IsFinite) (h0 : 0 ≤ w.value) :
    StartingParts v w := by
  obtain ⟨hvfin, hv0, hv1⟩ := inUnit_iff.mp hv
  obtain ⟨hp, hp0, hpw⟩ : (w * v).IsFinite ∧ 0 ≤ (w * v).value ∧ (w * v).value ≤ w.value :=
    (rounds_mul hw hvfin).between isValue_zero (isValue_value w) (mul_nonneg h0 hv0)
      (mul_le_of_le_one_right h0 hv1)
  have hsum := rounds_add hp isFinite_half
  have htrials := rounds_add hw isFinite_one
  rw [value_half] at hsum
  rw [value_one] at htrials
  exact ⟨rounds_mul hw hvfin, hp, hp0, hpw, hsum,
    isFinite_add hp isFinite_half hp0 (by rw [value_half]; norm_num) (by rw [value_half]; norm_num),
    htrials, isFinite_add hw isFinite_one h0 (by rw [value_one]; norm_num) value_one.le⟩

namespace StartingParts
variable (h : StartingParts v w)
include h

theorem half_le_numerator : 1 / 2 ≤ (w * v + 0.5).value := by
  have hhalf : IsValue (1 / 2) := value_half ▸ isValue_value 0.5
  exact h.numerator.le_value h.numerator_finite hhalf (by linarith [h.successes_nonneg])

theorem one_le_denominator : 1 ≤ (w + 1).value :=
  h.denominator.le_value h.denominator_finite isValue_one
    (by linarith [h.successes_nonneg, h.successes_le])

theorem numerator_le : (w * v + 0.5).value ≤ (w + 1).value :=
  h.numerator.value_le_value h.numerator_finite h.denominator h.denominator_finite
    (by linarith [h.successes_le])

theorem quotient : Rounds ((w * v + 0.5).value / (w + 1).value) (startingMeanAt v w) :=
  rounds_div h.numerator_finite h.denominator_finite
    (lt_of_lt_of_le one_pos h.one_le_denominator).ne'

end StartingParts

theorem startingMeanAt_of_finite (hv : InUnit v) (hw : w.IsFinite) (h0 : 0 ≤ w.value) :
    InUnit (startingMeanAt v w) := by
  have h := startingParts hv hw h0
  have hsum := h.half_le_numerator
  have hpos : 0 < (w + 1).value := by linarith [h.one_le_denominator]
  exact inUnit_iff.mpr (h.quotient.between isValue_zero isValue_one
    (div_nonneg (by linarith) hpos.le) ((div_le_one hpos).mpr h.numerator_le))

/-- Infinitely many trials leave nothing to say about the mean. -/
theorem startingMeanAt_infinity (hv : v.IsFinite) (s : Bool) :
    startingMeanAt v (infinity s) = .nan := by
  obtain ⟨t, u, hu, rfl⟩ := hv
  obtain ⟨_, _, _, hhalf⟩ := isFinite_half
  obtain ⟨_, _, _, hone⟩ := isFinite_one
  unfold startingMeanAt
  rw [hhalf, hone]
  change ((if u = 0 then nan else infinity (s ^^ t)) + _) / infinity s = nan
  split
  · rfl
  · rfl

end Finite

/-- Only a negative weight takes a starting mean out of the unit interval. -/
theorem not_beyond_startingMeanAt {v w : Binary64} (hv : InUnit v) (hw : ¬w < 0) :
    ¬Beyond (startingMeanAt v w) := by
  have hvfin := (inUnit_iff.mp hv).1
  cases w with
  | nan => exact not_beyond_nan
  | infinity s =>
    rw [startingMeanAt_infinity hvfin]
    exact not_beyond_nan
  | finite s u hu =>
    have hfin := isFinite_finite s u hu
    apply not_beyond_of_inUnit
    apply startingMeanAt_of_finite hv hfin
    rw [lt_iff_value_lt hfin isFinite_numeral_zero, value_numeral_zero, not_lt] at hw
    exact hw

example : Beyond (startingMeanAt 0 (-2)) := .inl (by decide +kernel)

end BinomialLogit
