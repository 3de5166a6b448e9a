import BinomialLogit.Proofs.Binary64.Special
import BinomialLogit.Proofs.Elementary
import Mathlib.Analysis.SpecialFunctions.Log.Basic
import Mathlib.Analysis.Complex.ExponentialBounds

/-! Accurate logarithms. A logarithm that is right to one part in 2^52 has the right sign and is zero
at one only, and there is such a logarithm: the logarithm of a double other than one is neither so
small nor so great that it could not be rounded well. -/

namespace BinomialLogit
set_option autoImplicit false

namespace Binary64

/-- The logarithm is right to one part in 2^52, the spacing above one. -/
def LnAccurate (ln : Binary64 → Binary64) : Prop :=
  ∀ x : Binary64, x.IsFinite → 0 < x →
    |((ln x).value : ℝ) - Real.log x.value| ≤ |Real.log x.value| * epsilon.value

theorem value_epsilon_real : (epsilon.value : ℝ) = 1 / 2 ^ 52 := by
  rw [value_epsilon]
  push_cast
  rfl

section Range
variable {x : Binary64}

theorem value_ge_unit (hpos : 0 < x.value) : 1 / 2 ^ 1074 ≤ x.value := by
  have hU := unitsInOne_pos
  obtain ⟨u, -, hu⟩ := (isValue_value x).exists_units hpos.le
  rw [hu] at hpos ⊢
  have hunits : (1 : ℚ) ≤ u := by
    have hne : u ≠ 0 := by
      rintro rfl
      simp at hpos
    exact_mod_cast Nat.one_le_iff_ne_zero.mpr hne
  rw [← zpow_natCast, Nat.cast_ofNat, ← unitsInOne_eq]
  exact div_le_div_of_nonneg_right hunits hU.le

theorem abs_log_le_of_pos (hpos : 0 < x.value) : |Real.log x.value| ≤ 745 := by
  have hposR : (0 : ℝ) < x.value := by exact_mod_cast hpos
  have hlow : ((1 / 2 ^ 1074 : ℚ) : ℝ) ≤ x.value := Rat.cast_le.mpr (value_ge_unit hpos)
  have hhigh : (x.value : ℝ) ≤ (2 ^ 1024 : ℚ) := Rat.cast_le.mpr x.value_le_two_pow
  rw [Rat.cast_div, Rat.cast_one, Rat.cast_pow, Rat.cast_ofNat] at hlow
  rw [Rat.cast_pow, Rat.cast_ofNat] at hhigh
  have hbelow := Real.log_le_log (by positivity) hlow
  have habove := Real.log_le_log hposR hhigh
  rw [one_div, Real.log_inv, Real.log_pow] at hbelow
  rw [Real.log_pow] at habove
  have htwo := Real.log_two_lt_d9
  rw [Nat.cast_ofNat] at hbelow habove
  rw [abs_le]
  constructor <;> linarith

/-- Other doubles than one keep a distance from it, and their logarithms from zero. -/
theorem abs_log_ge (hpos : 0 < x.value) (hone : x.value ≠ 1) :
    1 / 2 ^ 53 ≤ |Real.log x.value| := by
  have hposR : (0 : ℝ) < x.value := by exact_mod_cast hpos
  rcases lt_or_gt_of_ne hone with hlt | hgt
  · have hgap := (isValue_value x).le_sub_mul isValue_one hpos.le hlt
    have hgapR : (1 : ℝ) ≤ (1 - x.value) * 2 ^ 53 := by exact_mod_cast hgap
    have hlog := Real.log_le_sub_one_of_pos hposR
    rw [le_abs]
    right
    linarith
  · have hgap := isValue_one.le_sub_mul (isValue_value x) zero_le_one hgt
    have hgapR : (x.value : ℝ) ≤ (x.value - 1) * 2 ^ 53 := by exact_mod_cast hgap
    have hlog := Real.one_sub_inv_le_log_of_pos hposR
    have hratio : (1 : ℝ) / 2 ^ 53 ≤ 1 - (x.value : ℝ)⁻¹ := by
      have hsplit : 1 - (x.value : ℝ)⁻¹ = (x.value - 1) / x.value := by field_simp
      rw [hsplit, div_le_div_iff₀ (by positivity) hposR]
      linarith
    exact hratio.trans (hlog.trans (le_abs_self _))

end Range

theorem exists_rounds (q : ℚ) : ∃ z, Rounds q z := by
  have hU := unitsInOne_pos
  have hden : (0 : ℚ) < q.den := by exact_mod_cast q.den_pos
  refine ⟨ofQuotient (decide (q.num < 0)) (q.num.natAbs * unitsInOne) q.den, ?_⟩
  have h := Rounds.ofQuotient (decide (q.num < 0)) (q.num.natAbs * unitsInOne) q.den q.den_pos
  have hsigned : signed (decide (q.num < 0)) q.num.natAbs = q.num := by
    unfold signed
    simp only [decide_eq_true_eq]
    split <;> omega
  rw [signed_mul, hsigned, Int.cast_mul, Int.cast_natCast, mul_div_mul_right _ _ hU.ne',
    Rat.num_div_den] at h
  exact h

/-- A real number of moderate size is close to a double. -/
theorem exists_close {r : ℝ} (hlow : 1 / 2 ^ 100 ≤ |r|) (hhigh : |r| ≤ 2 ^ 100) :
    ∃ z : Binary64, z.IsFinite ∧ |(z.value : ℝ) - r| ≤ |r| * epsilon.value := by
  have hpos : 0 < |r| := lt_of_lt_of_le (by positivity) hlow
  obtain ⟨q, hq, hq'⟩ := exists_rat_btwn (lt_add_of_pos_right r (div_pos hpos (by positivity :
    (0 : ℝ) < 2 ^ 60)))
  have hclose : |(q : ℝ) - r| ≤ |r| / 2 ^ 60 := by
    rw [abs_le]
    constructor <;> linarith
  obtain ⟨z, hz⟩ := exists_rounds q
  have hsize := abs_sub_abs_le_abs_sub (q : ℝ) r
  have hsize' := abs_sub_abs_le_abs_sub r (q : ℝ)
  rw [abs_sub_comm] at hsize'
  have hqlow : ((1 / 2 ^ 200 : ℚ) : ℝ) ≤ (|q| : ℚ) := by
    push_cast
    linarith
  have hqhigh : ((|q| : ℚ) : ℝ) ≤ (2 ^ 200 : ℚ) := by
    push_cast
    linarith
  obtain ⟨hfin, herror⟩ := hz.relative_error (Rat.cast_le.mp hqlow) (Rat.cast_le.mp hqhigh)
  have herrorR : |(z.value : ℝ) - q| ≤ |(q : ℝ)| / 2 ^ 53 := by exact_mod_cast herror
  refine ⟨z, hfin, (abs_sub_le _ (q : ℝ) _).trans ?_⟩
  rw [value_epsilon_real]
  linarith

theorem exists_ln {x : Binary64} (hx : x.IsFinite) (hpos : 0 < x) : ∃ z : Binary64, z.IsFinite ∧
    |(z.value : ℝ) - Real.log x.value| ≤ |Real.log x.value| * epsilon.value := by
  have hvalue := hx.pos_iff.mp hpos
  by_cases hone : x.value = 1
  · refine ⟨0, isFinite_numeral_zero, ?_⟩
    rw [hone, value_numeral_zero]
    simp
  · have hlow := abs_log_ge hvalue hone
    have hhigh := abs_log_le_of_pos hvalue
    exact exists_close (by linarith) (by linarith)

section Accurate
variable {ln : Binary64 → Binary64} (haccurate : LnAccurate ln) (hfinite : LnFinite ln)
include haccurate hfinite

theorem LnAccurate.bounded : LnBounded ln := by
  intro x hx hpos
  have herror := haccurate x hx hpos
  rw [value_epsilon_real] at herror
  have hsize := abs_log_le_of_pos (hx.pos_iff.mp hpos)
  have htriangle := abs_sub_abs_le_abs_sub ((ln x).value : ℝ) (Real.log x.value)
  have hreal : |((ln x).value : ℝ)| ≤ 746 := by linarith
  exact ⟨hfinite x hx hpos, by exact_mod_cast hreal⟩

theorem LnAccurate.signed (hinfinity : ln (infinity false) = infinity false) : LnSigned ln := by
  constructor
  case one =>
    have hfin := hfinite 1 isFinite_one (by decide +kernel)
    have herror := haccurate 1 isFinite_one (by decide +kernel)
    rw [value_one, Rat.cast_one, Real.log_one, abs_zero, zero_mul, sub_zero] at herror
    have hzero : (ln 1).value = 0 := by exact_mod_cast abs_nonpos_iff.mp herror
    exact ⟨hfin.nonpos_iff.mpr hzero.le, hfin.nonneg_iff.mpr hzero.ge⟩
  case below =>
    intro x hpos hx
    have hfin : x.IsFinite := isFinite_of_le_of_le isFinite_numeral_zero isFinite_one
      (Binary64.le_of_lt hpos) (Binary64.le_of_lt hx)
    have hlog : Real.log x.value < 0 := Real.log_neg (by exact_mod_cast hfin.pos_iff.mp hpos)
      (by exact_mod_cast hfin.lt_one_iff.mp hx)
    have herror := haccurate x hfin hpos
    rw [abs_of_neg hlog, value_epsilon_real] at herror
    have hreal : ((ln x).value : ℝ) < 0 := by linarith [(abs_le.mp herror).2]
    rw [lt_iff_value_lt (hfinite x hfin hpos) isFinite_numeral_zero, value_numeral_zero]
    exact_mod_cast hreal
  case above =>
    intro x hx
    rcases eq_infinity_or_isFinite isFinite_one (Binary64.le_of_lt hx) with rfl | hfin
    · rw [hinfinity]
      decide +kernel
    · have hone := (lt_iff_value_lt isFinite_one hfin).mp hx
      rw [value_one] at hone
      have hpos : 0 < x := hfin.pos_iff.mpr (by linarith)
      have hlog : 0 < Real.log x.value := Real.log_pos (by exact_mod_cast hone)
      have herror := haccurate x hfin hpos
      rw [abs_of_pos hlog, value_epsilon_real] at herror
      have hreal : (0 : ℝ) < (ln x).value := by linarith [(abs_le.mp herror).1]
      rw [(hfinite x hfin hpos).pos_iff]
      exact_mod_cast hreal

end Accurate

end Binary64

open Binary64

/-- A logarithm as accurate as one could wish for. What is no positive number stays as it is. -/
noncomputable def accurateLn (x : Binary64) : Binary64 :=
  if h : x.IsFinite ∧ 0 < x then Classical.choose (exists_ln h.1 h.2) else x

noncomputable def Elementary.accurate : Elementary Binary64 :=
  { Elementary.tabulated with ln := accurateLn }

theorem accurateLn_spec {x : Binary64} (hx : x.IsFinite) (hpos : 0 < x) :
    (accurateLn x).IsFinite ∧
      |((accurateLn x).value : ℝ) - Real.log x.value| ≤ |Real.log x.value| * epsilon.value := by
  have h : x.IsFinite ∧ 0 < x := ⟨hx, hpos⟩
  unfold accurateLn
  rw [dif_pos h]
  exact Classical.choose_spec (exists_ln h.1 h.2)

theorem lnAccurate_accurate : LnAccurate Elementary.accurate.ln :=
  fun _ hx hpos => (accurateLn_spec hx hpos).2

theorem lnFinite_accurate : LnFinite Elementary.accurate.ln :=
  fun _ hx hpos => (accurateLn_spec hx hpos).1

theorem accurate_ln_infinity : Elementary.accurate.ln (infinity false) = infinity false := by
  change accurateLn (infinity false) = infinity false
  unfold accurateLn
  rw [dif_neg fun h => not_isFinite_infinity false h.1]

end BinomialLogit
