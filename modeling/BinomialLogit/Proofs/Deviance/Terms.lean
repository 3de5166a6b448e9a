import BinomialLogit.Deviance
import BinomialLogit.Proofs.Binary64.Special
import BinomialLogit.Proofs.Elementary
import BinomialLogit.Proofs.Mean
import BinomialLogit.Proofs.StartingMeans

/-! Deviance residuals row by row. A residual is made of two halves, one for the successes and one for
the failures. With a response in the unit interval and a mean strictly inside it the quotient in the
first may overflow, which makes an infinity of the half; the quotient in the second cannot, because
a mean keeps its distance from one. -/

namespace BinomialLogit
set_option autoImplicit false
open Binary64

/-- The numbers that a half is computed from: a proportion and the mean or complement of a mean that
it is compared with. -/
structure HalfArguments (y m : Binary64) : Prop where
  isFinite : y.IsFinite
  nonneg : 0 ≤ y.value
  le_one : y.value ≤ 1
  mean_isFinite : m.IsFinite
  mean_pos : 0 < m.value
  mean_le_one : m.value ≤ 1

namespace HalfArguments
variable {fns : Elementary Binary64} {y m : Binary64} (h : HalfArguments y m)
include h

theorem rounds : Rounds (y.value / m.value) (y / m) :=
  rounds_div h.isFinite h.mean_isFinite h.mean_pos.ne'

theorem quotient_ge : y ≤ y / m :=
  h.rounds.ge h.isFinite ((le_div_iff₀ h.mean_pos).mpr (mul_le_of_le_one_right h.nonneg h.mean_le_one))

/-- Dividing by what is at least 2^-53 does not overflow. -/
theorem quotient_isFinite (hm : 1 / 2 ^ 53 ≤ m.value) : (y / m).IsFinite := by
  refine (h.rounds.between isValue_zero (isValue_two_pow (n := 53) (by norm_num))
    (div_nonneg h.nonneg h.mean_pos.le) ?_).1
  rw [div_le_iff₀ h.mean_pos]
  norm_num at hm ⊢
  linarith [h.le_one]

theorem term_of_zero (h0 : y.value = 0) : fns.logRatioTerm y m = 0 :=
  if_pos ⟨h.isFinite.nonpos_iff.mpr h0.le, h.isFinite.nonneg_iff.mpr h0.ge⟩

theorem term_of_pos (hpos : 0 < y.value) : fns.logRatioTerm y m = y * fns.ln (y / m) :=
  if_neg fun hzero => absurd (h.isFinite.nonpos_iff.mp hzero.1) (not_le.mpr hpos)

theorem quotient_pos (hpos : 0 < y.value) : 0 < y / m :=
  Binary64.lt_of_lt_of_le (h.isFinite.pos_iff.mpr hpos) h.quotient_ge

theorem term_cases : fns.logRatioTerm y m = 0 ∨
    0 < y / m ∧ fns.logRatioTerm y m = y * fns.ln (y / m) := by
  rcases h.nonneg.eq_or_lt with hzero | hpos
  · exact .inl (h.term_of_zero hzero.symm)
  · exact .inr ⟨h.quotient_pos hpos, h.term_of_pos hpos⟩

variable (hquotient : (y / m).IsFinite)
include hquotient

theorem term_isFinite (hln : LnFinite fns.ln) : (fns.logRatioTerm y m).IsFinite := by
  rcases h.term_cases with heq | ⟨hpos, heq⟩
  · rw [heq]
    exact isFinite_numeral_zero
  · rw [heq]
    exact isFinite_part h.isFinite h.nonneg h.le_one (hln _ hquotient hpos)

theorem abs_term_le (hln : LnBounded fns.ln) : |(fns.logRatioTerm y m).value| ≤ 746 := by
  rcases h.term_cases with heq | ⟨hpos, heq⟩
  · rw [heq, value_numeral_zero, abs_zero]
    norm_num
  · obtain ⟨hfin, hle⟩ := hln _ hquotient hpos
    rw [heq]
    refine ((rounds_mul h.isFinite hfin).abs_value_le
      (isValue_natCast (n := 746) (by norm_num)) ?_).2
    rw [abs_mul, abs_of_nonneg h.nonneg]
    exact (mul_le_of_le_one_left (abs_nonneg _) h.le_one).trans (by exact_mod_cast hle)

end HalfArguments

section Residual
variable {fns : Elementary Binary64} {v m w : Binary64}

def Elementary.divergenceAt (fns : Elementary Binary64) (v m : Binary64) : Binary64 :=
  fns.logRatioTerm v m + fns.logRatioTerm (1 - v) (1 - m)

theorem devianceAt_eq : fns.devianceAt v m w = 2 * w * fns.divergenceAt v m := rfl

section Arguments
variable (hv : InUnit v) (hm : Interior m)
include hv hm

theorem successArguments : HalfArguments v m := by
  obtain ⟨hfin, h0, h1⟩ := inUnit_iff.mp hv
  exact ⟨hfin, h0, h1, hm.isFinite, hm.pos, hm.lt_one.le⟩

theorem failureArguments : HalfArguments (1 - v) (1 - m) := by
  obtain ⟨hfin, h0, h1⟩ := inUnit_iff.mp hv
  obtain ⟨hcfin, hc0, hc1⟩ := (rounds_one_sub hfin).between isValue_zero isValue_one
    (by linarith) (by linarith)
  obtain ⟨hmfin, hmlow, hmhigh⟩ := hm.complement
  exact ⟨hcfin, hc0, hc1, hmfin, lt_of_lt_of_le (by positivity) hmlow, hmhigh⟩

theorem failureQuotient_isFinite : ((1 - v) / (1 - m)).IsFinite :=
  (failureArguments hv hm).quotient_isFinite hm.complement.2.1

theorem failureHalf_isFinite (hln : LnFinite fns.ln) :
    (fns.logRatioTerm (1 - v) (1 - m)).IsFinite :=
  (failureArguments hv hm).term_isFinite (failureQuotient_isFinite hv hm) hln

end Arguments

variable (hln : LnFinite fns.ln) (hv : InUnit v) (hm : Interior m)
  (hinfinity : fns.ln (infinity false) = infinity false)
include hln hv hm hinfinity

/-- The sum of the halves is infinite if the quotient of the first overflows; otherwise both halves
are finite. -/
theorem divergenceAt_cases : (v / m = infinity false ∧ fns.divergenceAt v m = infinity false) ∨
    (v / m).IsFinite ∧ (fns.logRatioTerm v m).IsFinite := by
  have h := successArguments hv hm
  rcases eq_infinity_or_isFinite h.isFinite h.quotient_ge with heq | hquotient
  · have hpos : 0 < v.value := by
      refine lt_of_le_of_ne h.nonneg fun hzero => ?_
      have hround := h.rounds
      rw [← hzero, zero_div] at hround
      have hfinite := (hround.eq_of_isValue isValue_zero).1
      rw [heq] at hfinite
      exact not_isFinite_infinity false hfinite
    refine .inl ⟨heq, ?_⟩
    unfold Elementary.divergenceAt
    rw [h.term_of_pos hpos, heq, hinfinity, mul_infinity h.isFinite hpos,
      infinity_add (failureHalf_isFinite hv hm hln)]
  · exact .inr ⟨hquotient, h.term_isFinite hquotient hln⟩

theorem divergenceAt_ne_nan : fns.divergenceAt v m ≠ nan := by
  rcases divergenceAt_cases hln hv hm hinfinity with ⟨-, heq⟩ | ⟨-, hterm⟩
  · rw [heq]
    nofun
  · exact add_ne_nan hterm.ne_nan (failureHalf_isFinite hv hm hln)

end Residual

section Steps
variable {fns : Elementary Binary64} {v m w : Binary64}

structure ResidualSteps (fns : Elementary Binary64) (v m w : Binary64) : Prop where
  sum : Rounds ((fns.logRatioTerm v m).value + (fns.logRatioTerm (1 - v) (1 - m)).value)
    (fns.divergenceAt v m)
  sum_finite : (fns.divergenceAt v m).IsFinite
  product : Rounds (2 * w.value * (fns.divergenceAt v m).value) (fns.devianceAt v m w)
  product_finite : (fns.devianceAt v m w).IsFinite

theorem value_two_mul_weight (hw : w.IsFinite) (hw1 : |w.value| ≤ 2 ^ 1000) :
    (2 * w).IsFinite ∧ (2 * w).value = 2 * w.value :=
  value_two_mul hw (hw1.trans (pow_le_pow_right₀ one_le_two (by norm_num)))

/-- Nothing overflows but the first quotient. -/
theorem residualSteps (hln : LnBounded fns.ln) (hv : InUnit v) (hm : Interior m)
    (hquotient : (v / m).IsFinite) (hw : w.IsFinite) (hw1 : |w.value| ≤ 2 ^ 1000) :
    ResidualSteps fns v m w := by
  have hsuccess := successArguments hv hm
  have hfailure := failureArguments hv hm
  have hquotient' := failureQuotient_isFinite hv hm
  have hs := hsuccess.abs_term_le hquotient hln
  have ht := hfailure.abs_term_le hquotient' hln
  have hsum := rounds_add (hsuccess.term_isFinite hquotient hln.finite)
    (hfailure.term_isFinite hquotient' hln.finite)
  obtain ⟨hsumfin, hsumle⟩ := hsum.abs_value_le (isValue_natCast (n := 1492) (by norm_num))
    ((abs_add_le _ _).trans (by push_cast; linarith))
  obtain ⟨htwofin, htwo⟩ := value_two_mul_weight hw hw1
  have hproduct := rounds_mul htwofin hsumfin
  rw [htwo] at hproduct
  refine ⟨hsum, hsumfin, hproduct,
    (hproduct.abs_value_le (isValue_two_pow (n := 1012) (by norm_num)) ?_).1⟩
  rw [abs_mul, abs_mul, abs_two]
  calc 2 * |w.value| * _ ≤ 2 * 2 ^ 1000 * 2 ^ 11 :=
        mul_le_mul (mul_le_mul_of_nonneg_left hw1 zero_le_two)
          (hsumle.trans (by norm_num)) (abs_nonneg _) (by positivity)
    _ = 2 ^ 1012 := by rw [← pow_succ', ← pow_add]

end Steps

section Rows
variable {y mu weights : List Binary64} {i : ℕ} {v m w : Binary64}

structure RowAt (y mu weights : List Binary64) (i : ℕ) (v m w : Binary64) : Prop where
  response : y[i]? = some v
  mean : recycledAt? mu i = some m
  weight : recycledAt? weights i = some w

theorem mem_of_recycledAt? {xs : List Binary64} {x : Binary64} (h : recycledAt? xs i = some x) :
    x ∈ xs := by
  unfold recycledAt? at h
  split at h
  · exact List.mem_singleton.mpr (Option.some.inj h).symm
  · exact List.mem_of_getElem? h

theorem RowAt.mem (h : RowAt y mu weights i v m w) : v ∈ y ∧ m ∈ mu ∧ w ∈ weights :=
  ⟨List.mem_of_getElem? h.response, mem_of_recycledAt? h.mean, mem_of_recycledAt? h.weight⟩

theorem devianceResiduals_rows (fns : Elementary Binary64) (hmu : Fits y.length mu)
    (hweights : Fits y.length weights) :
    ∃ residuals, fns.devianceResiduals y mu weights = .ok residuals ∧
      residuals.length = y.length ∧ ∀ i < y.length, ∃ v m w, RowAt y mu weights i v m w ∧
        residuals[i]? = some (fns.devianceAt v m w) := by
  have hlength : (y.zip ((expand y.length mu).zip (expand y.length weights))).length =
      y.length := by
    simp [length_expand hmu, length_expand hweights]
  refine ⟨_, fns.devianceResiduals_eq_ok hmu hweights, by rw [List.length_map, hlength], ?_⟩
  intro i hi
  obtain ⟨⟨v, m, w⟩, hrow⟩ : ∃ row,
      (y.zip ((expand y.length mu).zip (expand y.length weights)))[i]? = some row :=
    ⟨_, List.getElem?_eq_getElem (hlength.symm ▸ hi)⟩
  obtain ⟨hv, hmw⟩ := List.getElem?_zip_eq_some.mp hrow
  obtain ⟨hm, hw⟩ := List.getElem?_zip_eq_some.mp hmw
  refine ⟨v, m, w, ⟨hv, recycledAt?_eq_some hm hi, recycledAt?_eq_some hw hi⟩, ?_⟩
  rw [List.getElem?_map, hrow, Option.map_some]

end Rows

end BinomialLogit
