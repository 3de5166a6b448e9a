import BinomialLogit.Proofs.Mean.Usable

/-! The whole family on fitted means. The inverse link with the standard guards turns any predictors
into means on which every operation of the family succeeds with finite numbers. -/

namespace BinomialLogit
set_option autoImplicit false
open Binary64

section Residuals
variable {fns : Elementary Binary64} (hln : LnBounded fns.ln) {y mu weights : List Binary64}
include hln

theorem devianceResiduals_isFinite (hlength : mu.length = y.length) (hmu : ValidMean mu)
    (hlow : ∀ m ∈ mu, 1 / 2 ^ 53 ≤ m.value) (hy : ∀ v ∈ y, 0 ≤ v ∧ v ≤ 1)
    (haccepted : weights.length = y.length ∨ weights.length = 1)
    (hweights : ∀ w ∈ weights, w.IsFinite ∧ |w.value| ≤ 2 ^ 1000) :
    ∃ residuals, fns.devianceResiduals y mu weights = .ok residuals ∧
      residuals.length = y.length ∧ ∀ r ∈ residuals, r.IsFinite := by
  refine ⟨_, fns.devianceResiduals_eq_ok (.inl hlength) haccepted, ?_, ?_⟩
  · simp [length_expand haccepted, length_expand (.inl hlength)]
  · intro r hr
    obtain ⟨⟨v, m, w⟩, hmem, rfl⟩ := List.mem_map.mp hr
    obtain ⟨hv, hmw⟩ := List.of_mem_zip hmem
    obtain ⟨hm, hw⟩ := List.of_mem_zip hmw
    obtain ⟨hv0, hv1⟩ := hy v hv
    obtain ⟨hwfin, hwle⟩ := hweights w (mem_of_mem_expand hw)
    have hm' := mem_of_mem_expand hm
    exact devianceAt_isFinite hln hv0 hv1 (validMean_iff.mp hmu m hm') (hlow m hm') hwfin hwle

end Residuals

/-- What the family makes of predictors and the means fitted to them. -/
structure FiniteFamily (fns : Elementary Binary64) (eta mu : List Binary64) : Prop where
  length : mu.length = eta.length
  between : ∀ m ∈ mu, lowestMean ≤ m ∧ m ≤ highestMean
  valid : ValidMean mu
  slopes : ∃ slopes, (fns.standardLogit.meanDerivative eta).outcome = .ok slopes ∧
    slopes.length = eta.length ∧ ∀ s ∈ slopes, s.IsFinite ∧ epsilon ≤ s
  variances : ∃ variances, variance mu = .ok variances ∧ variances.length = mu.length ∧
    ∀ v ∈ variances, v.IsFinite ∧ 0 < v
  predictors : ∃ eta', fns.standardLogit.link mu = .ok eta' ∧ eta'.length = mu.length ∧
    ∀ x ∈ eta', x.IsFinite
  residuals : ∀ y weights : List Binary64, y.length = eta.length → (∀ v ∈ y, 0 ≤ v ∧ v ≤ 1) →
    (weights.length = y.length ∨ weights.length = 1) →
    (∀ w ∈ weights, w.IsFinite ∧ |w.value| ≤ 2 ^ 1000) →
    ∃ residuals, fns.devianceResiduals y mu weights = .ok residuals ∧
      residuals.length = y.length ∧ ∀ r ∈ residuals, r.IsFinite

/-- With the standard guards everything stays finite, at predictors of any size and at the
infinities, whatever the exponential and the logarithm do within their bounds. -/
theorem standardLogit_finiteFamily {fns : Elementary Binary64} (hexp : ExpBounded fns.exp)
    (hln : LnBounded fns.ln) {eta : List Binary64} (hne : eta ≠ []) (hnan : nan ∉ eta) :
    ∃ mu, (fns.standardLogit.inverseLink eta).outcome = .ok mu ∧ FiniteFamily fns eta mu := by
  have hmean : ∀ m ∈ eta.map fns.standardLogit.meanAt, ∃ x, x ≠ nan ∧
      fns.standardLogit.meanAt x = m := by
    intro m hm
    obtain ⟨x, hx, rfl⟩ := List.mem_map.mp hm
    exact ⟨x, ne_of_mem_of_not_mem hx hnan, rfl⟩
  have hvalid : ValidMean (eta.map fns.standardLogit.meanAt) := by
    rw [validMean_iff]
    intro m hm
    obtain ⟨x, hx, rfl⟩ := hmean m hm
    exact meanAt_standard_interior hexp hx
  have hne' : eta.map fns.standardLogit.meanAt ≠ [] := by simpa using hne
  refine ⟨eta.map fns.standardLogit.meanAt, by rw [Logit.inverseLink_of_ne_nil _ hne], ?_⟩
  constructor
  case length => exact List.length_map _
  case between =>
    intro m hm
    obtain ⟨x, hx, rfl⟩ := hmean m hm
    exact meanAt_standard_between hexp hx
  case valid => exact hvalid
  case slopes =>
    refine ⟨_, by rw [Logit.meanDerivative_of_ne_nil _ hne], List.length_map _, ?_⟩
    intro s hs
    obtain ⟨x, hx, rfl⟩ := List.mem_map.mp hs
    exact slopeAt_standard hexp (ne_of_mem_of_not_mem hx hnan)
  case variances =>
    obtain ⟨variances, hok, hlength, hbetween⟩ := variance_between hne' hvalid
    exact ⟨variances, hok, hlength, fun v hv => ⟨(hbetween v hv).1, (hbetween v hv).2.1⟩⟩
  case predictors => exact link_isFinite hne' hvalid hln.finite
  case residuals =>
    intro y weights hlength hy haccepted hweights
    refine devianceResiduals_isFinite hln ?_ hvalid ?_ hy haccepted hweights
    · rw [List.length_map, hlength]
    · intro m hm
      obtain ⟨x, hx, rfl⟩ := hmean m hm
      exact (meanAt_standard_value hexp hx).1

theorem finiteFamily_of_zero_and_infinity :
    ∃ mu, (Elementary.tabulated.standardLogit.inverseLink [0, .infinity false]).outcome = .ok mu ∧
      FiniteFamily .tabulated [0, .infinity false] mu :=
  standardLogit_finiteFamily expBounded_tabulated lnBounded_tabulated (by decide)
    (by decide +kernel)

end BinomialLogit
