import BinomialLogit.Proofs.Binary64.Whole
import BinomialLogit.Proofs.Rows
import BinomialLogit.Proofs.StartingMeans

/-! Grouped counts recorded as proportions. Neither the proportion nor its product with the number
of trials need be exact, but what comes out is so close to the number of successes that it is
rounded to it, and the difference stays far below the tolerance. -/

namespace BinomialLogit
set_option autoImplicit false
open Binary64

/-- The tolerance is a thousandth, and no rounding takes that below 2^-10. -/
theorem le_countTolerance :
    countTolerance.IsFinite ∧ 1 / 2 ^ 10 ≤ countTolerance.value := by
  have hrounds : Rounds ((1 : ℕ) / 10 ^ 3) countTolerance :=
    rounds_literal (by norm_num) (by norm_num)
  obtain ⟨hfin, hlow, -⟩ := hrounds.between (isValue_one_div_two_pow (n := 10) (by norm_num))
    isValue_one (by norm_num) (by norm_num)
  exact ⟨hfin, hlow⟩

/-- What is close to a whole number is not taken for a fraction. -/
theorem not_isFractional_of_close {x : Binary64} {n : ℕ} (hx : x.IsFinite) (hn : n < 2 ^ 53)
    (h : |x.value - n| ≤ 1 / 2 ^ 10) : ¬IsFractional x := by
  have hhalf : |x.value - n| < 1 / 2 := lt_of_le_of_lt h (by norm_num)
  obtain ⟨hround, hvalue⟩ := round_of_close hx hn hhalf
  have hdiff := rounds_sub hx hround
  rw [hvalue] at hdiff
  obtain ⟨hfin, hsmall⟩ := hdiff.abs_value_le (isValue_one_div_two_pow (by norm_num)) h
  obtain ⟨htol, hlow⟩ := le_countTolerance
  unfold IsFractional
  rw [lt_iff_value_lt htol (isFinite_abs hfin), value_abs, not_lt]
  exact hsmall.trans hlow

structure Tally where
  successes : ℕ
  trials : ℕ
  positive : 0 < trials
  moderate : trials ≤ 2 ^ 40
  le : successes ≤ trials

namespace Tally
variable (t : Tally) {v : Binary64}

def proportion : ℚ := t.successes / t.trials

def weight : Binary64 := .ofNat t.trials

/-- The response is a double nearest to the proportion of successes. -/
structure Records (t : Tally) (v : Binary64) : Prop where
  finite : v.IsFinite
  nearest : ∀ b : Binary64, b.IsFinite → |v.value - t.proportion| ≤ |b.value - t.proportion|

theorem trials_lt : t.trials < 2 ^ 53 := lt_of_le_of_lt t.moderate (by norm_num)

theorem trials_pos : (0 : ℚ) < t.trials := by exact_mod_cast t.positive

theorem isFinite_weight : t.weight.IsFinite := isFinite_ofNat t.trials_lt

theorem value_weight : t.weight.value = t.trials := value_ofNat t.trials_lt

theorem trials_mul_proportion : t.trials * t.proportion = t.successes :=
  mul_div_cancel₀ _ t.trials_pos.ne'

theorem proportion_nonneg : 0 ≤ t.proportion := div_nonneg (Nat.cast_nonneg _) (Nat.cast_nonneg _)

theorem proportion_le_one : t.proportion ≤ 1 :=
  div_le_one_of_le₀ (by exact_mod_cast t.le) (Nat.cast_nonneg _)

theorem rounds_quotient : Rounds t.proportion (.ofNat t.successes / t.weight) := by
  have hsuccesses : t.successes < 2 ^ 53 := lt_of_le_of_lt t.le t.trials_lt
  have hround := rounds_div (isFinite_ofNat hsuccesses) t.isFinite_weight
    (by rw [t.value_weight]; exact t.trials_pos.ne')
  rwa [value_ofNat hsuccesses, t.value_weight] at hround

theorem quotient_error : (.ofNat t.successes / t.weight : Binary64).IsFinite ∧
    |(.ofNat t.successes / t.weight : Binary64).value - t.proportion| ≤ 1 / 2 ^ 53 := by
  apply t.rounds_quotient.unit_error
  rw [abs_of_nonneg t.proportion_nonneg]
  exact t.proportion_le_one

theorem records_quotient : t.Records (.ofNat t.successes / t.weight) := by
  obtain ⟨hfin, -⟩ := t.quotient_error
  exact ⟨hfin, fun b _ => t.rounds_quotient.abs_sub_le hfin (isValue_value b)⟩

namespace Records
variable {t} (h : t.Records v)
include h

/-- The ends of the unit interval are doubles, so a nearest one lies between them. -/
theorem inUnit : InUnit v := by
  have hzero := h.nearest 0 isFinite_numeral_zero
  have hone := h.nearest 1 isFinite_one
  rw [value_numeral_zero, zero_sub, abs_neg, abs_of_nonneg t.proportion_nonneg] at hzero
  rw [value_one, abs_of_nonneg (sub_nonneg.mpr t.proportion_le_one)] at hone
  have hlow := (abs_le.mp hzero).1
  have hhigh := (abs_le.mp hone).2
  exact inUnit_iff.mpr ⟨h.finite, by linarith, by linarith⟩

theorem error : |v.value - t.proportion| ≤ 1 / 2 ^ 53 := by
  obtain ⟨hfin, herror⟩ := t.quotient_error
  exact (h.nearest _ hfin).trans herror

theorem exact_successes_error : |t.weight.value * v.value - t.successes| ≤ 1 / 2 ^ 13 := by
  have htrials : (t.trials : ℚ) ≤ 2 ^ 40 := by exact_mod_cast t.moderate
  rw [t.value_weight, ← t.trials_mul_proportion, ← mul_sub, abs_mul, abs_of_pos t.trials_pos]
  calc (t.trials : ℚ) * |v.value - t.proportion|
      ≤ 2 ^ 40 * (1 / 2 ^ 53) := mul_le_mul htrials h.error (abs_nonneg _) (by positivity)
    _ = 1 / 2 ^ 13 := by norm_num

/-- The proportion and its product with the trials are both rounded; neither error exceeds 2^-13. -/
theorem successes_error : (t.weight * v).IsFinite ∧
    |(t.weight * v).value - t.successes| ≤ 1 / 2 ^ 12 := by
  have htrials : (t.trials : ℚ) ≤ 2 ^ 40 := by exact_mod_cast t.moderate
  have hnonneg : 0 ≤ t.weight.value := t.value_weight ▸ t.trials_pos.le
  have hparts := startingParts h.inUnit t.isFinite_weight hnonneg
  obtain ⟨-, hv0, hv1⟩ := inUnit_iff.mp h.inUnit
  have hproduct : |t.weight.value * v.value| ≤ 2 ^ 40 := by
    rw [abs_of_nonneg (mul_nonneg hnonneg hv0)]
    refine (mul_le_of_le_one_right hnonneg hv1).trans ?_
    rwa [t.value_weight]
  have hround : |(t.weight * v).value - t.weight.value * v.value| ≤ 1 / 2 ^ 13 := by
    refine (hparts.successes.abs_sub_le_max hparts.successes_finite).trans (max_le ?_ ?_)
    · rw [div_le_iff₀ (by norm_num)]
      exact hproduct.trans (by norm_num)
    · exact (Rounds.half_unit_lt (by norm_num)).le
  refine ⟨hparts.successes_finite, ?_⟩
  calc |(t.weight * v).value - t.successes|
      ≤ |(t.weight * v).value - t.weight.value * v.value| +
          |t.weight.value * v.value - t.successes| := abs_sub_le _ _ _
    _ ≤ 1 / 2 ^ 13 + 1 / 2 ^ 13 := add_le_add hround h.exact_successes_error
    _ = 1 / 2 ^ 12 := by norm_num

theorem not_isFractional : ¬IsFractional (t.weight * v) := by
  obtain ⟨hfin, herror⟩ := h.successes_error
  exact not_isFractional_of_close hfin (lt_of_le_of_lt t.le t.trials_lt)
    (herror.trans (by norm_num))

end Records
end Tally

section Columns
variable {tallies : List Tally} {y : List Binary64}

theorem inUnit_of_tallies (h : List.Forall₂ Tally.Records tallies y) : ∀ v ∈ y, InUnit v := by
  induction h with
  | nil => exact fun v hv => absurd hv List.not_mem_nil
  | cons hrecords _ ih => exact List.forall_mem_cons.mpr ⟨hrecords.inUnit, ih⟩

theorem fractionalCount_of_tallies (h : List.Forall₂ Tally.Records tallies y) :
    fractionalCount (y.zip (tallies.map Tally.weight)) = 0 := by
  obtain ⟨-, hrecords⟩ := List.forall₂_iff_zip.mp h.flip
  apply List.countP_eq_zero.mpr
  intro row hrow
  rw [List.zip_map_right] at hrow
  obtain ⟨⟨v, t⟩, hmem, rfl⟩ := List.mem_map.mp hrow
  have hwhole := (hrecords hmem).not_isFractional
  simpa using hwhole

/-- Proportions of whole counts, weighted by the trials, start the fit with nothing on record. -/
theorem startingMeans_of_tallies (h : List.Forall₂ Tally.Records tallies y) :
    startingMeans y (tallies.map Tally.weight) =
      ⟨[], .ok (meansAtStart y (tallies.map Tally.weight))⟩ := by
  have hlength : (tallies.map Tally.weight).length = y.length := by
    rw [List.length_map, h.length_eq]
  rw [startingMeans_of_inUnit hlength (inUnit_of_tallies h), startLog,
    fractionalCount_of_tallies h]
  rfl

/-- One success in 49 trials, where the product misses the success. -/
theorem startingMeans_of_inexact_tally : (49 : Binary64) * (1 / 49) ≠ 1 ∧
    startingMeans [1 / 49] [49] = ⟨[], .ok (meansAtStart [1 / 49] [49])⟩ :=
  let t : Tally := ⟨1, 49, by decide, by decide, by decide⟩
  ⟨by decide +kernel, startingMeans_of_tallies (.cons t.records_quotient .nil)⟩

end Columns

end BinomialLogit
