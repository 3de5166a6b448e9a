import BinomialLogit.Proofs.Deviance.Accuracy

/-! The sign of deviance residuals. The two halves have opposite signs, and where response and mean are
close their rounding errors decide. When the complements of the two round alike, the half of the
failures vanishes and a response below its mean is left with a negative residual. An accurate
logarithm keeps such residuals within a few roundings of zero. -/

namespace BinomialLogit
set_option autoImplicit false
open Binary64

namespace Binary64.LnSigned
variable {ln : Binary64 → Binary64} (hsigned : LnSigned ln) (hln : LnFinite ln) {x : Binary64}
  (hx : x.IsFinite)
include hsigned hln hx

theorem value_nonneg (h : 1 ≤ x.value) : 0 ≤ (ln x).value := by
  rcases h.eq_or_lt with heq | hlt
  · obtain rfl := eq_of_value_eq isFinite_one hx (value_one.trans heq) (by norm_num)
    exact (hln 1 hx (by decide +kernel)).nonneg_iff.mp hsigned.one.2
  · have hpos : 0 < x := hx.pos_iff.mpr (by linarith)
    have habove := hsigned.above x ((lt_iff_value_lt isFinite_one hx).mpr (by rwa [value_one]))
    exact ((hln x hx hpos).pos_iff.mp habove).le

theorem value_nonpos (hpos : 0 < x.value) (h : x.value ≤ 1) : (ln x).value ≤ 0 := by
  have hpos' : 0 < x := hx.pos_iff.mpr hpos
  rcases h.eq_or_lt with heq | hlt
  · obtain rfl := eq_of_value_eq hx isFinite_one (heq.trans value_one.symm) hpos.ne'
    exact (hln 1 hx hpos').nonpos_iff.mp hsigned.one.1
  · have hbelow := hsigned.below x hpos' (hx.lt_one_iff.mpr hlt)
    exact (hln x hx hpos').nonpos_iff.mp (Binary64.le_of_lt hbelow)

end Binary64.LnSigned

namespace HalfArguments
variable {fns : Elementary Binary64} (hsigned : LnSigned fns.ln) (hln : LnFinite fns.ln)
  {y m : Binary64} (h : HalfArguments y m) (hquotient : (y / m).IsFinite)
include hsigned hln h hquotient

theorem term_nonneg (hle : m.value ≤ y.value ∨ y.value = 0) :
    0 ≤ (fns.logRatioTerm y m).value := by
  have hterm := h.term_isFinite hquotient hln
  rcases hle with hle | hzero
  · have hpos : 0 < y.value := h.mean_pos.trans_le hle
    have hratio : 1 ≤ (y / m).value :=
      h.rounds.le_value hquotient isValue_one ((one_le_div h.mean_pos).mpr hle)
    have hlog := hsigned.value_nonneg hln hquotient hratio
    rw [h.term_of_pos hpos] at hterm ⊢
    exact (rounds_mul h.isFinite (hln _ hquotient (h.quotient_pos hpos))).le_value hterm
      isValue_zero (mul_nonneg h.nonneg hlog)
  · rw [h.term_of_zero hzero, value_numeral_zero]

theorem term_nonpos (hle : y.value ≤ m.value) : (fns.logRatioTerm y m).value ≤ 0 := by
  have hterm := h.term_isFinite hquotient hln
  rcases h.term_cases with heq | ⟨hpos, heq⟩
  · rw [heq, value_numeral_zero]
  · have hratio : (y / m).value ≤ 1 :=
      h.rounds.value_le hquotient isValue_one ((div_le_one h.mean_pos).mpr hle)
    have hlog := hsigned.value_nonpos hln hquotient (hquotient.pos_iff.mp hpos) hratio
    rw [heq] at hterm ⊢
    exact (rounds_mul h.isFinite (hln _ hquotient hpos)).value_le hterm isValue_zero
      (mul_nonpos_of_nonneg_of_nonpos h.nonneg hlog)

end HalfArguments

namespace ResidualSteps
variable {fns : Elementary Binary64} {v m w : Binary64} (h : ResidualSteps fns v m w)
  (hw : 0 ≤ w.value)
include h hw

theorem nonneg (hsum : 0 ≤ (fns.logRatioTerm v m).value +
    (fns.logRatioTerm (1 - v) (1 - m)).value) : 0 ≤ (fns.devianceAt v m w).value :=
  h.product.le_value h.product_finite isValue_zero
    (mul_nonneg (mul_nonneg zero_le_two hw) (h.sum.le_value h.sum_finite isValue_zero hsum))

theorem nonpos (hsum : (fns.logRatioTerm v m).value +
    (fns.logRatioTerm (1 - v) (1 - m)).value ≤ 0) : (fns.devianceAt v m w).value ≤ 0 :=
  h.product.value_le h.product_finite isValue_zero (mul_nonpos_of_nonneg_of_nonpos
    (mul_nonneg zero_le_two hw) (h.sum.value_le h.sum_finite isValue_zero hsum))

/-- A rounding is no farther from its exact result than zero is. -/
theorem ge (hsum : -(1 / 2 ^ 51) ≤ (fns.logRatioTerm v m).value +
    (fns.logRatioTerm (1 - v) (1 - m)).value) :
    -(w.value / 2 ^ 49) ≤ (fns.devianceAt v m w).value := by
  have hlow := h.sum.le_value h.sum_finite (isValue_one_div_two_pow (by norm_num)).neg hsum
  have hnear := h.product.abs_sub_le h.product_finite isValue_zero
  have hscaled := mul_le_mul_of_nonneg_left hlow (mul_nonneg zero_le_two hw)
  rw [zero_sub, abs_neg] at hnear
  generalize 2 * w.value * (fns.divergenceAt v m).value = q at hnear hscaled
  have hdist := (abs_le.mp hnear).1
  rcases abs_choice q with heq | heq
  · rw [heq] at hdist
    have hle : 0 ≤ w.value / 2 ^ 49 := by positivity
    linarith
  · rw [heq] at hdist
    linarith

end ResidualSteps

structure ResidualSign (ln : Binary64 → Binary64) (v m w r : Binary64) : Prop where
  nan_iff : r = nan ↔ w.value = 0 ∧ v / m = infinity false
  infinity_iff : r = infinity false ↔ 0 < w.value ∧ v / m = infinity false
  finite_iff : r.IsFinite ↔ v / m ≠ infinity false
  nonneg : v.value = 0 ∨ v.value = 1 ∨ (1 - v).value = (1 - m).value ∧ m.value ≤ v.value →
    r ≠ nan → 0 ≤ r
  nonpos : (1 - v).value = (1 - m).value → v.value ≤ m.value → r ≤ 0
  near_zero : LnAccurate ln → r.IsFinite → -(w.value / 2 ^ 49) ≤ r.value
  apart : LnAccurate ln → 1 / 2 ^ 25 ≤ |v.value - m.value| → r ≠ nan → 0 ≤ r

section Row
variable {fns : Elementary Binary64} {v m w : Binary64} (hsigned : LnSigned fns.ln)
  (hln : LnBounded fns.ln) (hv : InUnit v) (hm : Interior m) (hw : w.IsFinite)
  (hw0 : 0 ≤ w.value) (hw1 : w.value ≤ 2 ^ 1000)

section Halves
variable (hquotient : (v / m).IsFinite)
include hsigned hln hv hm hquotient

theorem halves_nonneg
    (h : v.value = 0 ∨ v.value = 1 ∨ (1 - v).value = (1 - m).value ∧ m.value ≤ v.value) :
    0 ≤ (fns.logRatioTerm v m).value + (fns.logRatioTerm (1 - v) (1 - m)).value := by
  have hcomplement := rounds_one_sub (inUnit_iff.mp hv).1
  have hsuccess : m.value ≤ v.value ∨ v.value = 0 := by
    rcases h with hzero | hone | ⟨-, hle⟩
    · exact .inr hzero
    · exact .inl (hone ▸ hm.lt_one.le)
    · exact .inl hle
  have hfailure : (1 - m).value ≤ (1 - v).value ∨ (1 - v).value = 0 := by
    rcases h with hzero | hone | ⟨heq, -⟩
    · rw [hzero, sub_zero] at hcomplement
      rw [(hcomplement.eq_of_isValue isValue_one).2]
      exact .inl hm.complement.2.2
    · rw [hone, sub_self] at hcomplement
      exact .inr (hcomplement.eq_of_isValue isValue_zero).2
    · exact .inl heq.ge
  exact add_nonneg ((successArguments hv hm).term_nonneg hsigned hln.finite hquotient hsuccess)
    ((failureArguments hv hm).term_nonneg hsigned hln.finite (failureQuotient_isFinite hv hm)
      hfailure)

theorem halves_nonpos (heq : (1 - v).value = (1 - m).value) (hle : v.value ≤ m.value) :
    (fns.logRatioTerm v m).value + (fns.logRatioTerm (1 - v) (1 - m)).value ≤ 0 :=
  add_nonpos ((successArguments hv hm).term_nonpos hsigned hln.finite hquotient hle)
    ((failureArguments hv hm).term_nonpos hsigned hln.finite (failureQuotient_isFinite hv hm)
      heq.le)

/-- With an accurate logarithm only rounding makes the sum negative, and responses strictly inside the
unit interval are the only ones that this can happen to. -/
theorem halves_ge (haccurate : LnAccurate fns.ln) :
    0 ≤ (fns.logRatioTerm v m).value + (fns.logRatioTerm (1 - v) (1 - m)).value ∨
      (v.value - m.value) ^ 2 / 2 - 1 / 2 ^ 51 ≤
        (fns.logRatioTerm v m).value + (fns.logRatioTerm (1 - v) (1 - m)).value := by
  obtain ⟨hvfin, hv0, hv1⟩ := inUnit_iff.mp hv
  rcases hv0.eq_or_lt with hzero | hpos
  · exact .inl (halves_nonneg hsigned hln hv hm hquotient (.inl hzero.symm))
  · rcases hv1.eq_or_lt with hone | hlt
    · exact .inl (halves_nonneg hsigned hln hv hm hquotient (.inr (.inl hone)))
    · exact .inr (sq_le_halves hln.finite haccurate ⟨hvfin, hpos, hlt⟩ hm hquotient)

end Halves

section Sign
include hln hv hm hw hw0 hw1

theorem residualSign_of_overflow (hinfinity : fns.ln (infinity false) = infinity false)
    (hoverflow : v / m = infinity false) :
    ResidualSign fns.ln v m w (fns.devianceAt v m w) := by
  obtain ⟨htwofin, htwo⟩ := value_two_mul_weight hw ((abs_of_nonneg hw0).trans_le hw1)
  have hdivergence : fns.divergenceAt v m = infinity false := by
    rcases divergenceAt_cases hln.finite hv hm hinfinity with ⟨-, heq⟩ | ⟨hfin, -⟩
    · exact heq
    · exact absurd (hoverflow ▸ hfin) (not_isFinite_infinity false)
  have hbeyond : ¬v.value ≤ m.value := by
    intro hle
    have hone := (successArguments hv hm).rounds.le isFinite_one
      (by rw [value_one]; exact (div_le_one hm.pos).mpr hle)
    rw [hoverflow] at hone
    exact absurd hone (Binary64.not_le_of_lt isFinite_one.lt_infinity)
  rw [devianceAt_eq, hdivergence]
  rcases hw0.eq_or_lt with hzero | hpos
  · rw [zero_mul_infinity htwofin (by rw [htwo, ← hzero, mul_zero])]
    constructor
    case nan_iff => exact ⟨fun _ => ⟨hzero.symm, hoverflow⟩, fun _ => rfl⟩
    case infinity_iff => exact ⟨nofun, fun h => absurd h.1 hzero.not_lt⟩
    case finite_iff => exact ⟨fun h => absurd h not_isFinite_nan, fun h => absurd hoverflow h⟩
    case nonneg => exact fun _ h => absurd rfl h
    case nonpos => exact fun _ hle => absurd hle hbeyond
    case near_zero => exact fun _ h => absurd h not_isFinite_nan
    case apart => exact fun _ _ h => absurd rfl h
  · rw [mul_infinity htwofin (by rw [htwo]; exact mul_pos zero_lt_two hpos)]
    have hnonneg : (0 : Binary64) ≤ infinity false :=
      Binary64.le_of_lt isFinite_numeral_zero.lt_infinity
    constructor
    case nan_iff => exact ⟨nofun, fun h => absurd h.1 hpos.ne'⟩
    case infinity_iff => exact ⟨fun _ => ⟨hpos, hoverflow⟩, fun _ => rfl⟩
    case finite_iff =>
      exact ⟨fun h => absurd h (not_isFinite_infinity false), fun h => absurd hoverflow h⟩
    case nonneg => exact fun _ _ => hnonneg
    case nonpos => exact fun _ hle => absurd hle hbeyond
    case near_zero => exact fun _ h => absurd h (not_isFinite_infinity false)
    case apart => exact fun _ _ _ => hnonneg

include hsigned in
theorem residualSign_of_isFinite (hquotient : (v / m).IsFinite) :
    ResidualSign fns.ln v m w (fns.devianceAt v m w) := by
  have hsteps := residualSteps hln hv hm hquotient hw ((abs_of_nonneg hw0).trans_le hw1)
  have hfin := hsteps.product_finite
  have hinside : v / m ≠ infinity false := by
    intro heq
    exact not_isFinite_infinity false (heq ▸ hquotient)
  constructor
  case nan_iff => exact ⟨fun h => absurd h hfin.ne_nan, fun h => absurd h.2 hinside⟩
  case infinity_iff =>
    exact ⟨fun h => absurd (h ▸ hfin) (not_isFinite_infinity false), fun h => absurd h.2 hinside⟩
  case finite_iff => exact ⟨fun _ => hinside, fun _ => hfin⟩
  case nonneg =>
    intro h _
    exact hfin.nonneg_iff.mpr (hsteps.nonneg hw0 (halves_nonneg hsigned hln hv hm hquotient h))
  case nonpos =>
    intro heq hle
    exact hfin.nonpos_iff.mpr (hsteps.nonpos hw0 (halves_nonpos hsigned hln hv hm hquotient heq hle))
  case near_zero =>
    intro haccurate _
    refine hsteps.ge hw0 ?_
    rcases halves_ge hsigned hln hv hm hquotient haccurate with hsum | hsum
    · linarith
    · linarith [sq_nonneg (v.value - m.value)]
  case apart =>
    intro haccurate hdist _
    refine hfin.nonneg_iff.mpr (hsteps.nonneg hw0 ?_)
    rcases halves_ge hsigned hln hv hm hquotient haccurate with hsum | hsum
    · exact hsum
    · have hsq := pow_le_pow_left₀ (by positivity) hdist 2
      rw [sq_abs] at hsq
      linarith

end Sign

end Row

/-- Residuals are not negative on the rows where this does not hang on rounding, and with an accurate
logarithm they are nowhere below zero by more than the weight over 2^49. -/
theorem devianceResiduals_sign {fns : Elementary Binary64} (hsigned : LnSigned fns.ln)
    (hln : LnBounded fns.ln) (hinfinity : fns.ln (infinity false) = infinity false)
    {y mu weights : List Binary64} (hy : ∀ v ∈ y, InUnit v) (hmu : Fits y.length mu)
    (hvalid : ValidMean mu) (hweights : Fits y.length weights)
    (hsizes : ∀ w ∈ weights, w.IsFinite ∧ 0 ≤ w.value ∧ w.value ≤ 2 ^ 1000) :
    ∃ residuals, fns.devianceResiduals y mu weights = .ok residuals ∧
      residuals.length = y.length ∧ ∀ i < y.length, ∃ v m w r, RowAt y mu weights i v m w ∧
        residuals[i]? = some r ∧ ResidualSign fns.ln v m w r := by
  obtain ⟨residuals, hok, hlength, hrows⟩ := devianceResiduals_rows fns hmu hweights
  refine ⟨residuals, hok, hlength, ?_⟩
  intro i hi
  obtain ⟨v, m, w, hrow, hresidual⟩ := hrows i hi
  obtain ⟨hv, hm, hw⟩ := hrow.mem
  obtain ⟨hwfin, hw0, hw1⟩ := hsizes w hw
  have hm' := validMean_iff.mp hvalid m hm
  refine ⟨v, m, w, _, hrow, hresidual, ?_⟩
  rcases divergenceAt_cases hln.finite (hy v hv) hm' hinfinity with ⟨hoverflow, -⟩ | ⟨hquotient, -⟩
  · exact residualSign_of_overflow hln (hy v hv) hm' hwfin hw0 hw1 hinfinity hoverflow
  · exact residualSign_of_isFinite hsigned hln (hy v hv) hm' hwfin hw0 hw1 hquotient

theorem devianceResiduals_sign_half_and_quarter : ∃ residuals,
    Elementary.accurate.devianceResiduals [0.5] [0.25] [1] = .ok residuals ∧
      residuals.length = 1 ∧ LnAccurate Elementary.accurate.ln ∧
      ∃ r, residuals[0]? = some r ∧ ResidualSign Elementary.accurate.ln 0.5 0.25 1 r := by
  have hfinite := lnFinite_accurate
  have hmu : Fits ([0.5] : List Binary64).length ([0.25] : List Binary64) := .inl rfl
  have hweights : Fits ([0.5] : List Binary64).length ([1] : List Binary64) := .inl rfl
  have hsizes : ∀ w ∈ ([1] : List Binary64), w.IsFinite ∧ 0 ≤ w.value ∧ w.value ≤ 2 ^ 1000 := by
    intro w hw
    obtain rfl := List.mem_singleton.mp hw
    rw [value_one]
    exact ⟨isFinite_one, zero_le_one, one_le_pow₀ one_le_two⟩
  obtain ⟨residuals, hok, hlength, hrows⟩ := devianceResiduals_sign
    (lnAccurate_accurate.signed hfinite accurate_ln_infinity) (lnAccurate_accurate.bounded hfinite)
    accurate_ln_infinity (by decide +kernel) hmu (by decide +kernel) hweights hsizes
  obtain ⟨v, m, w, r, ⟨hv, hm, hw⟩, hr, hsign⟩ := hrows 0 (by decide)
  cases hv
  cases hm
  cases hw
  exact ⟨residuals, hok, hlength, lnAccurate_accurate, r, hr, hsign⟩

/-- The complements of 2^-60 and 2^-59 both round to one, so that a response of the one with a mean of the
other has a negative residual; a weight of zero with a quotient that overflows gives NaN. -/
theorem devianceResiduals_negative : LnSigned Elementary.rightInSign.ln ∧
    InUnit 8.673617379884035e-19 ∧ ValidMean [(1.734723475976807e-18 : Binary64)] ∧
      Elementary.rightInSign.devianceResiduals [8.673617379884035e-19] [1.734723475976807e-18] [1] =
        .ok [-1.2024186864244718e-18] ∧ ¬(0 : Binary64) ≤ -1.2024186864244718e-18 ∧
      InUnit 1 ∧ ValidMean [(1e-310 : Binary64)] ∧
      Elementary.rightInSign.devianceResiduals [1] [1e-310] [0] = .ok [nan] ∧
        ¬(0 : Binary64) ≤ nan := by
  have hsingle : ∀ v m w : Binary64, Elementary.rightInSign.devianceResiduals [v] [m] [w] =
      .ok [Elementary.rightInSign.devianceAt v m w] := fun v m w =>
    Elementary.rightInSign.devianceResiduals_eq_ok (y := [v]) (.inl rfl) (.inr rfl)
  rw [hsingle, hsingle]
  refine ⟨lnSigned_rightInSign, by decide +kernel, by decide +kernel, ?_, by decide +kernel,
    by decide +kernel, by decide +kernel, ?_, by decide +kernel⟩
  · exact congrArg (fun r => Except.ok [r]) (by decide +kernel)
  · exact congrArg (fun r => Except.ok [r]) (by decide +kernel)

end BinomialLogit
