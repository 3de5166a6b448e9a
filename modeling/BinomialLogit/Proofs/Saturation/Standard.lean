import BinomialLogit.Proofs.Deviance.Terms
import BinomialLogit.Proofs.Guards
import BinomialLogit.Proofs.Saturation.Odds

/-! The logit link with the standard guards and any elementary functions within their bounds. Every
predictor that is no NaN has a mean between two fixed ends, strictly inside the unit interval, and a
derivative not below the floor. -/

namespace BinomialLogit
set_option autoImplicit false
open Binary64

def Elementary.standardLogit (fns : Elementary Binary64) : Logit Binary64 :=
  { fns with guards := .standard }

def lowestMean : Binary64 := epsilon / (1 + epsilon)

def highestMean : Binary64 := (1 / epsilon) / (1 + 1 / epsilon)

theorem value_inverse_epsilon : (1 / epsilon).IsFinite ∧ (1 / epsilon).value = 2 ^ 52 := by
  have hround := rounds_div isFinite_one isFinite_epsilon (by rw [value_epsilon]; positivity)
  rw [value_one, value_epsilon, one_div_one_div] at hround
  exact hround.eq_of_isValue (isValue_two_pow (by norm_num))

theorem lowestMean_between :
    lowestMean.IsFinite ∧ 1 / 2 ^ 53 ≤ lowestMean.value ∧ lowestMean.value ≤ 1 / 2 ^ 52 := by
  have hsum := rounds_one_add isFinite_epsilon
  rw [value_epsilon] at hsum
  obtain ⟨hfin, hval⟩ := hsum.eq_of_isValue
    (isValue_of_eq (2 ^ 52 + 1) (-52) (by norm_num) (by norm_num) (by norm_num) (by norm_num))
  have hround := rounds_div isFinite_epsilon hfin (by rw [hval]; positivity)
  rw [hval, value_epsilon] at hround
  exact hround.between (isValue_one_div_two_pow (by norm_num))
    (isValue_one_div_two_pow (by norm_num)) (by norm_num) (by norm_num)

theorem highestMean_between : highestMean.IsFinite ∧ 1 - 1 / 2 ^ 51 ≤ highestMean.value ∧
    highestMean.value ≤ 1 - 1 / 2 ^ 53 := by
  obtain ⟨hfin, hval⟩ := value_inverse_epsilon
  have hsum := rounds_one_add hfin
  rw [hval] at hsum
  obtain ⟨hfin', hval'⟩ := hsum.eq_of_isValue
    (isValue_of_eq (2 ^ 52 + 1) 0 (by norm_num) (by norm_num) (by norm_num) (by norm_num))
  have hround := rounds_div hfin hfin' (by rw [hval']; positivity)
  rw [hval', hval] at hround
  exact hround.between
    (isValue_one_sub (by norm_num)) (isValue_one_sub (by norm_num))
    (by norm_num) (by norm_num)

section Predictor
variable {fns : Elementary Binary64} (hexp : ExpBounded fns.exp) {x : Binary64} (hx : x ≠ nan)
include hexp hx

theorem moderateOdds_exp (hsat : ¬Guards.standard.Saturated x) : ModerateOdds (fns.exp x) := by
  obtain ⟨hlow, hhigh⟩ := (Guards.standard_admissible.not_saturated_iff hx).mp hsat
  obtain ⟨hfin, hge, hle⟩ := hexp x hlow hhigh
  exact ⟨hfin, hge, hle⟩

/-- A mean is one of the two ends or, at an unsaturated predictor, lies well between them. -/
theorem meanAt_standard_cases :
    (x < -30 ∧ fns.standardLogit.meanAt x = lowestMean) ∨
    (30 < x ∧ fns.standardLogit.meanAt x = highestMean) ∨
    (¬Guards.standard.Saturated x ∧ (fns.standardLogit.meanAt x).IsFinite ∧
      1 / 2 ^ 46 ≤ (fns.standardLogit.meanAt x).value ∧
      (fns.standardLogit.meanAt x).value ≤ 1 - 1 / 2 ^ 46) := by
  rcases fns.clampedExp_cases .standard x with ⟨h, ht⟩ | ⟨h, ht⟩ | ⟨h, ht⟩
  · exact .inl ⟨h, congrArg proportion ht⟩
  · exact .inr (.inl ⟨h, congrArg proportion ht⟩)
  · have hmean : fns.standardLogit.meanAt x = proportion (fns.exp x) := congrArg proportion ht
    rw [hmean]
    exact .inr (.inr ⟨h, (moderateOdds_exp hexp hx h).proportion_between⟩)

theorem meanAt_standard_isFinite : (fns.standardLogit.meanAt x).IsFinite := by
  rcases meanAt_standard_cases hexp hx with ⟨-, h⟩ | ⟨-, h⟩ | ⟨-, h, -⟩
  · exact h ▸ lowestMean_between.1
  · exact h ▸ highestMean_between.1
  · exact h

theorem meanAt_standard_between :
    lowestMean ≤ fns.standardLogit.meanAt x ∧ fns.standardLogit.meanAt x ≤ highestMean := by
  obtain ⟨hlow, hlow1, hlow2⟩ := lowestMean_between
  obtain ⟨hhigh, hhigh1, hhigh2⟩ := highestMean_between
  have hends : lowestMean ≤ highestMean := by
    rw [le_iff_value_le hlow hhigh]
    norm_num at hlow2 hhigh1
    linarith
  rcases meanAt_standard_cases hexp hx with ⟨-, h⟩ | ⟨-, h⟩ | ⟨-, h, hge, hle⟩
  · rw [h]
    exact ⟨Binary64.le_refl hlow.ne_nan, hends⟩
  · rw [h]
    exact ⟨hends, Binary64.le_refl hhigh.ne_nan⟩
  · rw [le_iff_value_le hlow h, le_iff_value_le h hhigh]
    norm_num at hlow2 hhigh1 hge hle
    constructor <;> linarith

theorem meanAt_standard_value : 1 / 2 ^ 53 ≤ (fns.standardLogit.meanAt x).value ∧
    (fns.standardLogit.meanAt x).value ≤ 1 - 1 / 2 ^ 53 := by
  obtain ⟨hlow, hlow1, -⟩ := lowestMean_between
  obtain ⟨hhigh, -, hhigh2⟩ := highestMean_between
  have hfin := meanAt_standard_isFinite hexp hx
  obtain ⟨hge, hle⟩ := meanAt_standard_between hexp hx
  exact ⟨hlow1.trans ((le_iff_value_le hlow hfin).mp hge),
    ((le_iff_value_le hfin hhigh).mp hle).trans hhigh2⟩

theorem meanAt_standard_interior : Interior (fns.standardLogit.meanAt x) := by
  obtain ⟨hge, hle⟩ := meanAt_standard_value hexp hx
  exact ⟨meanAt_standard_isFinite hexp hx, lt_of_lt_of_le (by positivity) hge,
    lt_of_le_of_lt hle (by norm_num)⟩

theorem slopeAt_standard :
    (fns.standardLogit.slopeAt x).IsFinite ∧ epsilon ≤ fns.standardLogit.slopeAt x := by
  change IsFinite (if Guards.standard.Saturated x then epsilon else _) ∧
    epsilon ≤ if Guards.standard.Saturated x then epsilon else _
  split
  · exact ⟨isFinite_epsilon, Binary64.le_refl isFinite_epsilon.ne_nan⟩
  · rename_i hsat
    obtain ⟨hfin, hge⟩ := (moderateOdds_exp hexp hx hsat).slope_between
    refine ⟨hfin, (le_iff_value_le isFinite_epsilon hfin).mpr ?_⟩
    rw [value_epsilon]
    exact hge

end Predictor

section Residual
variable {fns : Elementary Binary64} (hln : LnBounded fns.ln)
include hln

theorem devianceAt_isFinite {y m w : Binary64} (hy0 : 0 ≤ y) (hy1 : y ≤ 1) (hm : Interior m)
    (hm0 : 1 / 2 ^ 53 ≤ m.value) (hw : w.IsFinite) (hw0 : |w.value| ≤ 2 ^ 1000) :
    (fns.devianceAt y m w).IsFinite := by
  have hunit : InUnit y := ⟨hy0, hy1⟩
  have hquotient := (successArguments hunit hm).quotient_isFinite hm0
  exact (residualSteps hln hunit hm hquotient hw hw0).product_finite

end Residual

end BinomialLogit
