import BinomialLogit.Proofs.Binary64.Sparse
import BinomialLogit.Proofs.Decimal.Literal
import BinomialLogit.Proofs.Elementary
import BinomialLogit.Proofs.Mean
import BinomialLogit.Proofs.Rows
import BinomialLogit.Proofs.Saturation.Standard

/-! What usable means are good for. Each of them has a finite predictor, however close to zero or
one it lies, and their variances are positive and at most one quarter. Complements are rounded
upwards as well, but not so far that a product would pass the middle above one quarter. -/

namespace BinomialLogit
set_option autoImplicit false
open Binary64

theorem exact_quarter : (0.25 : Binary64).IsFinite ∧ (0.25 : Binary64).value = 1 / 2 ^ 2 :=
  literal_exact (by norm_num) (by norm_num) (isValue_one_div_two_pow (by norm_num)) (by norm_num)

theorem isFinite_quarter : (0.25 : Binary64).IsFinite := exact_quarter.1

theorem value_quarter : (0.25 : Binary64).value = 1 / 4 := exact_quarter.2.trans (by norm_num)

namespace Interior
variable {m : Binary64} (h : Interior m)
include h

theorem varianceAt_le : (varianceAt m).value ≤ 1 / 4 := by
  have hfin := (h.varianceAt_pos).1
  have hquarter : IsValue (1 / 4) := value_quarter ▸ isValue_value 0.25
  have hround : Rounds (m.value * (1 - m).value) (varianceAt m) :=
    rounds_mul h.isFinite h.complement.1
  by_cases hhalf : m.value = 1 / 2
  · have hcomplement : (1 - m).value = 1 / 2 := by
      have hexact := rounds_one_sub h.isFinite
      rw [hhalf, show (1 : ℚ) - 1 / 2 = 1 / 2 ^ 1 by norm_num] at hexact
      rw [(hexact.eq_of_isValue (isValue_one_div_two_pow (by norm_num))).2, pow_one]
    refine hround.value_le hfin hquarter ?_
    rw [hhalf, hcomplement]
    norm_num
  · refine hround.value_le_of_lt_middle (e := -54) hfin hquarter (by norm_num) (by norm_num) ?_
    have hexact : m.value * (1 - m.value) < 1 / 4 := by
      have hsq : 0 < (m.value - 1 / 2) ^ 2 := by
        have hne := sub_ne_zero.mpr hhalf
        positivity
      linarith
    have herror := (abs_le.mp h.shortOfOne.complement_error).2
    calc m.value * (1 - m).value
        ≤ m.value * ((1 - m.value) * (1 + 1 / 2 ^ 53)) :=
          mul_le_mul_of_nonneg_left (by linarith) h.pos.le
      _ = m.value * (1 - m.value) * (1 + 1 / 2 ^ 53) := by ring
      _ < 1 / 4 * (1 + 1 / 2 ^ 53) := mul_lt_mul_of_pos_right hexact (by positivity)
      _ = 1 / 4 + 2 ^ (-54 : ℤ) / 2 := by norm_num

theorem varianceAt_between :
    (varianceAt m).IsFinite ∧ 0 < varianceAt m ∧ varianceAt m ≤ 0.25 := by
  obtain ⟨hfin, hpos⟩ := h.varianceAt_pos
  refine ⟨hfin, hfin.pos_iff.mpr hpos, ?_⟩
  rw [le_iff_value_le hfin isFinite_quarter, value_quarter]
  exact h.varianceAt_le

end Interior

example : varianceAt 0.5 = 0.25 := by decide +kernel

section Means
variable {mu : List Binary64} (hne : mu ≠ []) (hmu : ValidMean mu)
include hne hmu

theorem variance_between :
    ∃ variances, variance mu = .ok variances ∧ variances.length = mu.length ∧
      ∀ v ∈ variances, v.IsFinite ∧ 0 < v ∧ v ≤ 0.25 := by
  refine ⟨mu.map varianceAt, variance_of_ne_nil hne, List.length_map _, ?_⟩
  intro v hv
  obtain ⟨m, hm, rfl⟩ := List.mem_map.mp hv
  exact (validMean_iff.mp hmu m hm).varianceAt_between

theorem link_isFinite {L : Logit Binary64} (hln : LnFinite L.ln) :
    ∃ etas, L.link mu = .ok etas ∧ etas.length = mu.length ∧ ∀ x ∈ etas, x.IsFinite := by
  have hinside : ∀ m ∈ mu, ¬(m < 0 ∨ 1 < m) := fun m hm => (validMean_iff.mp hmu m hm).inside
  refine ⟨_, L.link_eq_ok hne hinside, List.length_map _, ?_⟩
  intro x hx
  obtain ⟨m, hm, rfl⟩ := List.mem_map.mp hx
  obtain ⟨hfin, hpos, -⟩ := (validMean_iff.mp hmu m hm).odds_pos
  exact hln _ hfin (hfin.pos_iff.mpr hpos)

/-- Usable means are accepted by the link and by the variance, with finite predictors and with
variances above zero and up to one quarter. -/
theorem predictors_and_variances_of_validMean {L : Logit Binary64} (hln : LnFinite L.ln) :
    (∃ etas, L.link mu = .ok etas ∧ etas.length = mu.length ∧ ∀ x ∈ etas, x.IsFinite) ∧
      ∃ variances, variance mu = .ok variances ∧ variances.length = mu.length ∧
        ∀ v ∈ variances, 0 < v ∧ v ≤ 0.25 := by
  constructor
  · exact link_isFinite hne hmu hln
  · obtain ⟨variances, hok, hlength, hbetween⟩ := variance_between hne hmu
    exact ⟨variances, hok, hlength, fun v hv => (hbetween v hv).2⟩

end Means

/-- One half and the mean two spacings below one. -/
theorem predictors_and_variances_next_to_one :
    (∃ etas, Elementary.tabulated.standardLogit.link [0.5, 0.9999999999999998] = .ok etas ∧
      etas.length = 2 ∧ ∀ x ∈ etas, x.IsFinite) ∧
      ∃ variances, variance [0.5, (0.9999999999999998 : Binary64)] = .ok variances ∧
        variances.length = 2 ∧ ∀ v ∈ variances, 0 < v ∧ v ≤ 0.25 :=
  have hvalid : ValidMean [0.5, (0.9999999999999998 : Binary64)] := by decide +kernel
  predictors_and_variances_of_validMean (by decide) hvalid lnBounded_tabulated.finite

end BinomialLogit
