import BinomialLogit.Proofs.Likelihood.Counts
import BinomialLogit.Proofs.Likelihood.Mass
import BinomialLogit.Proofs.Likelihood.Total
import BinomialLogit.Proofs.Saturation.Standard

/-! The likelihood of fitted means. The mean beyond the upper threshold is so close to one that
success counts as certain there, and an observation that is not all successes has probability zero:
the criterion is infinite exactly when there is one. -/

namespace BinomialLogit
set_option autoImplicit false
open Binary64

theorem certain_between : certain.IsFinite ∧ 1 - 1 / 2 ^ 46 < certain.value := by
  have hproduct := rounds_mul isFinite_two isFinite_epsilon
  have htwice : (2 : ℚ) * (1 / 2 ^ 52) = 1 / 2 ^ 51 := by norm_num
  rw [value_two, value_epsilon, htwice] at hproduct
  obtain ⟨hfin, hval⟩ := hproduct.eq_of_isValue (isValue_one_div_two_pow (by norm_num))
  have hdiff := rounds_one_sub hfin
  rw [hval] at hdiff
  obtain ⟨hcfin, hcval⟩ := hdiff.eq_of_isValue (isValue_one_sub (by norm_num))
  refine ⟨hcfin, ?_⟩
  change _ < (1 - 2 * epsilon).value
  rw [hcval]
  norm_num

namespace Observation
variable {o : Observation}

/-- The observation of a fit that counts trials by its weights. -/
structure Regular (o : Observation) : Prop where
  size_eq : o.size = o.weight
  response : 0 ≤ o.response ∧ o.response ≤ 1
  size : 0 ≤ o.size ∧ o.size ≤ ofNat (2 ^ 40)

namespace Regular
variable (h : o.Regular)
include h

theorem isFinite : o.size.IsFinite ∧ 0 ≤ o.size.value := by
  have hbounds := between_ofNat (m := 0) (n := 2 ^ 40) (by norm_num) (by norm_num) h.size
  exact ⟨hbounds.1, by exact_mod_cast hbounds.2.1⟩

theorem trials_le : o.trials ≤ 2 ^ 40 := by
  have hmono := toCount_mono (Binary64.round_mono h.size.2)
  rwa [Binary64.round_ofNat (by norm_num), toCount_ofNat (by norm_num)] at hmono

theorem successes_le : o.successes ≤ o.trials := successes_le_trials h.response h.size.1

theorem term_eq (fns : Elementary Binary64) (hcontributes : o.Contributes) :
    o.term fns = 1 * fns.lnMass o.mean o.trials o.successes := by
  obtain ⟨hfin, -⟩ := h.isFinite
  have hpos : 0 < o.size.value := hfin.pos_iff.mp hcontributes
  unfold term
  rw [← h.size_eq, div_self_eq_one hfin hpos.ne']

end Regular

end Observation

theorem one_mul_moderate {x : Binary64} (h : Moderate x) : Moderate (1 * x) := by
  obtain ⟨hfin, hle⟩ := h
  have hround := rounds_mul isFinite_one hfin
  rw [value_one, one_mul] at hround
  exact hround.abs_value_le (isValue_two_pow (by norm_num)) hle

section Term
variable {fns : Elementary Binary64} (hexp : ExpBounded fns.exp) (hln : LnBounded fns.ln)
  {o : Observation} (h : o.Regular) (hcontributes : o.Contributes) {x : Binary64} (hx : x ≠ nan)
  (hmean : o.mean = fns.standardLogit.meanAt x)
include hexp hln h hcontributes hx hmean

/-- A term is a negative infinity beyond the upper threshold without a success in every trial. -/
theorem term_cases : (Moderate (o.term fns) ∧ ¬(30 < x ∧ o.successes ≠ o.trials)) ∨
    (o.term fns = infinity true ∧ 30 < x ∧ o.successes ≠ o.trials) := by
  have hinterior := meanAt_standard_interior hexp hx
  have hzero : ¬o.mean.Agrees 0 := by
    intro hagrees
    have hle := hagrees.1
    rw [hmean, hinterior.isFinite.nonpos_iff] at hle
    linarith [hinterior.pos]
  have huncertain (hnot : ¬certain ≤ o.mean) : Moderate (o.term fns) := by
    rw [h.term_eq fns hcontributes]
    rw [← hmean] at hinterior
    exact one_mul_moderate (lnMass_bounded hln hinterior hnot h.trials_le h.successes_le)
  rcases meanAt_standard_cases hexp hx with ⟨hlow, hend⟩ | ⟨hhigh, hend⟩ | ⟨hsat, hfin, -, hle⟩
  · refine .inl ⟨huncertain ?_, ?_⟩
    · rw [hmean, hend]
      decide +kernel
    · intro hbad
      have hcross : (30 : Binary64) < -30 :=
        Binary64.lt_of_lt_of_le hbad.1 (Binary64.le_of_lt hlow)
      exact absurd hcross (by decide +kernel)
  · have hcertain : certain ≤ o.mean := by
      rw [hmean, hend]
      decide +kernel
    rw [h.term_eq fns hcontributes, lnMass_of_certain fns hzero hcertain h.successes_le]
    by_cases hall : o.successes = o.trials
    · rw [if_pos hall]
      refine .inl ⟨one_mul_moderate ⟨isFinite_numeral_zero, ?_⟩, fun hbad => hbad.2 hall⟩
      rw [value_numeral_zero, abs_zero]
      positivity
    · rw [if_neg hall]
      exact .inr ⟨by decide +kernel, hhigh, hall⟩
  · refine .inl ⟨huncertain ?_, fun hbad => hsat (.inl hbad.1)⟩
    rw [hmean, le_iff_value_le certain_between.1 hfin]
    linarith [certain_between.2]

end Term

/-- A predictor beyond the upper threshold whose observation has trials, not all of them
successes. -/
def Contradicts (eta y weights : List Binary64) (i : ℕ) : Prop :=
  ∃ x v w, eta[i]? = some x ∧ y[i]? = some v ∧ weights[i]? = some w ∧
    30 < x ∧ 0 < w ∧ (w * v).round.toCount ≠ w.round.toCount

theorem sizes_one (weights : List Binary64) : sizes [1] weights = weights :=
  if_neg (by decide +kernel)

section Rows
variable {fns : Elementary Binary64} {eta y weights : List Binary64} (hnan : nan ∉ eta)
  (hy : y.length = eta.length) (hunit : ∀ v ∈ y, InUnit v)
  (hlength : weights.length = eta.length)
  (hweights : ∀ w ∈ weights, 0 ≤ w ∧ w ≤ ofNat (2 ^ 40))

def Elementary.fittedRows (fns : Elementary Binary64) (eta y weights : List Binary64) :
    List Observation :=
  rowsOf y [1] (eta.map fns.standardLogit.meanAt) weights

include hy hlength

theorem fittedRow {i : ℕ} {o : Observation} (ho : (fns.fittedRows eta y weights)[i]? = some o) :
    ∃ x, eta[i]? = some x ∧ o.mean = fns.standardLogit.meanAt x ∧ y[i]? = some o.response ∧
      weights[i]? = some o.weight ∧ o.size = o.weight := by
  obtain ⟨hv, hs, hm, hw⟩ := getElem?_rowsOf ho
  have hi : i < y.length := (List.getElem?_eq_some_iff.mp hv).1
  have hsize : o.size = o.weight := by
    rw [sizes_one, hw] at hs
    exact (Option.some.inj hs).symm
  rw [recycledAt?_eq_getElem? (by rw [List.length_map]; omega), List.getElem?_map,
    Option.map_eq_some_iff] at hm
  obtain ⟨x, hx, hmean⟩ := hm
  rw [recycledAt?_eq_getElem? (by omega)] at hw
  exact ⟨x, hx, hmean.symm, hv, hw, hsize⟩

include hunit hweights in
theorem fittedRow_regular {i : ℕ} {o : Observation}
    (ho : (fns.fittedRows eta y weights)[i]? = some o) : o.Regular := by
  obtain ⟨x, -, -, hv, hw, hsize⟩ := fittedRow hy hlength ho
  refine ⟨hsize, hunit _ (List.mem_of_getElem? hv), ?_⟩
  rw [hsize]
  exact hweights _ (List.mem_of_getElem? hw)

theorem exists_fittedRow {i : ℕ} (hi : i < y.length) :
    ∃ o, (fns.fittedRows eta y weights)[i]? = some o := by
  apply getElem?_rowsOf_of_lt (.inr rfl) (.inl _) (.inl _) hi
  · rw [List.length_map, hy]
  · rw [hlength, hy]

variable (hexp : ExpBounded fns.exp) (hln : LnBounded fns.ln)
include hnan hunit hweights hexp hln

/-- The terms of the contributing observations; their place among the rows is that of the
predictors. -/
theorem fittedTerm_cases {i : ℕ} {o : Observation}
    (ho : (fns.fittedRows eta y weights)[i]? = some o) (hcontributes : o.Contributes) :
    (Moderate (o.term fns) ∧ ¬Contradicts eta y weights i) ∨
      (o.term fns = infinity true ∧ Contradicts eta y weights i) := by
  obtain ⟨x, hx, hmean, hv, hw, hsize⟩ := fittedRow hy hlength ho
  have hregular := fittedRow_regular hy hunit hlength hweights ho
  have hne : x ≠ nan := ne_of_mem_of_not_mem (List.mem_of_getElem? hx) hnan
  have hcontradicts : Contradicts eta y weights i ↔ 30 < x ∧ o.successes ≠ o.trials := by
    unfold Contradicts Observation.successes Observation.trials
    rw [hsize]
    constructor
    · intro h
      obtain ⟨x', v, w, hx', hv', hw', hhigh, -, hcounts⟩ := h
      cases hx.symm.trans hx'
      cases hv.symm.trans hv'
      cases hw.symm.trans hw'
      exact ⟨hhigh, hcounts⟩
    · intro h
      obtain ⟨hhigh, hcounts⟩ := h
      exact ⟨x, _, _, hx, hv, hw, hhigh, hsize ▸ hcontributes, hcounts⟩
  rw [hcontradicts]
  exact term_cases hexp hln hregular hcontributes hne hmean

theorem infinity_mem_fittedTerms_iff :
    infinity true ∈ ((fns.fittedRows eta y weights).filter fun o => o.Contributes).map
      (fun o => o.term fns) ↔ ∃ i, Contradicts eta y weights i := by
  constructor
  · intro hmem
    obtain ⟨o, ho, hterm⟩ := List.mem_map.mp hmem
    obtain ⟨hrow, hcontributes⟩ := List.mem_filter.mp ho
    obtain ⟨i, hi⟩ := List.mem_iff_getElem?.mp hrow
    rcases fittedTerm_cases hnan hy hunit hlength hweights hexp hln hi
      (of_decide_eq_true hcontributes) with ⟨hmoderate, -⟩ | ⟨-, hcontradicts⟩
    · rw [hterm] at hmoderate
      exact absurd hmoderate.1 (not_isFinite_infinity _)
    · exact ⟨i, hcontradicts⟩
  · intro h
    obtain ⟨i, hcontradicts⟩ := h
    obtain ⟨x, v, w, -, hv, hw, -, hpos, -⟩ := id hcontradicts
    obtain ⟨o, ho⟩ : ∃ o, (fns.fittedRows eta y weights)[i]? = some o :=
      exists_fittedRow hy hlength (List.getElem?_eq_some_iff.mp hv).1
    obtain ⟨-, -, -, -, hw', hsize⟩ := fittedRow hy hlength ho
    cases hw.symm.trans hw'
    have hcontributes : o.Contributes := by
      unfold Observation.Contributes
      rwa [hsize]
    rcases fittedTerm_cases hnan hy hunit hlength hweights hexp hln ho hcontributes with
      ⟨-, hnot⟩ | ⟨hterm, -⟩
    · exact absurd hcontradicts hnot
    · rw [← hterm]
      exact List.mem_map_of_mem (List.mem_filter.mpr
        ⟨List.mem_of_getElem? ho, decide_eq_true hcontributes⟩)

omit hunit hweights hln in
theorem logLikelihood_fitted : logLikelihood fns (fns.fittedRows eta y weights) =
    .ok (total (((fns.fittedRows eta y weights).filter fun o => o.Contributes).map
      fun o => o.term fns)) := by
  apply logLikelihood_eq_ok
  intro o ho _
  obtain ⟨i, hi⟩ := List.mem_iff_getElem?.mp ho
  obtain ⟨x, hx, hmean, -⟩ := fittedRow hy hlength hi
  have hinterior := meanAt_standard_interior hexp
    (ne_of_mem_of_not_mem (List.mem_of_getElem? hx) hnan)
  obtain ⟨hpos, hlt⟩ := interior_iff.mp hinterior
  rw [hmean]
  exact ⟨Binary64.le_of_lt hpos, Binary64.le_of_lt hlt⟩

end Rows

/-- The criterion on fitted means is finite unless some predictor beyond the upper threshold has an
observation with a failure, and then it is positive infinity. -/
theorem aic_fitted_isFinite_iff {fns : Elementary Binary64} (hexp : ExpBounded fns.exp)
    (hln : LnBounded fns.ln) {eta y weights : List Binary64} (hne : eta ≠ []) (hnan : nan ∉ eta)
    (hy : y.length = eta.length) (hunit : ∀ v ∈ y, InUnit v)
    (hlength : weights.length = eta.length)
    (hweights : ∀ w ∈ weights, 0 ≤ w ∧ w ≤ ofNat (2 ^ 40)) :
    ∃ mu value, (fns.standardLogit.inverseLink eta).outcome = .ok mu ∧
      fns.aic y [1] mu weights = .ok value ∧
      (value.IsFinite ↔ ∀ i, ¬Contradicts eta y weights i) ∧
      (value.IsFinite ∨ value = infinity false) := by
  have hterms : ∀ t ∈ ((fns.fittedRows eta y weights).filter fun o => o.Contributes).map
      (fun o => o.term fns), Moderate t ∨ t = infinity true := by
    intro t ht
    obtain ⟨o, ho, rfl⟩ := List.mem_map.mp ht
    obtain ⟨hrow, hcontributes⟩ := List.mem_filter.mp ho
    obtain ⟨i, hi⟩ := List.mem_iff_getElem?.mp hrow
    exact (fittedTerm_cases hnan hy hunit hlength hweights hexp hln hi
      (of_decide_eq_true hcontributes)).imp And.left And.left
  have hmem := infinity_mem_fittedTerms_iff hnan hy hunit hlength hweights hexp hln
  have hchecks : aicChecks y [1] (eta.map fns.standardLogit.meanAt) weights = .ok ⟨⟩ := by
    refine aicChecks_eq_ok_iff.mpr ⟨⟨.inr rfl, .inl ?_, .inl ?_⟩, hunit⟩
    · rw [List.length_map, hy]
    · rw [hlength, hy]
  have haic : fns.aic y [1] (eta.map fns.standardLogit.meanAt) weights = .ok (-2 * total
      (((fns.fittedRows eta y weights).filter fun o => o.Contributes).map
        fun o => o.term fns)) := by
    have hsum := logLikelihood_fitted hnan hy hlength hexp
    unfold Elementary.fittedRows at hsum
    rw [fns.aic_eq, hchecks, hsum]
    rfl
  refine ⟨_, _, by rw [Logit.inverseLink_of_ne_nil _ hne], haic, ?_⟩
  rcases total_cases hterms with ⟨hnone, hfin, hsum⟩ | ⟨hsome, hsum⟩
  · have hvalue := rounds_mul (isFinite_neg isFinite_two) hfin
    rw [value_neg, value_two] at hvalue
    have hfinite := (hvalue.abs_value_le (isValue_two_pow (n := 121) (by norm_num)) (by
      rw [abs_mul, abs_neg, abs_two]
      norm_num at hsum ⊢
      linarith)).1
    refine ⟨⟨?_, fun _ => hfinite⟩, .inl hfinite⟩
    intro _ i hcontradicts
    exact hnone (hmem.mpr ⟨i, hcontradicts⟩)
  · have hinfinite : -2 * infinity true = infinity false := by decide +kernel
    rw [hsum, hinfinite]
    refine ⟨⟨fun h => absurd h (not_isFinite_infinity _), ?_⟩, .inr rfl⟩
    intro hnone
    obtain ⟨i, hcontradicts⟩ := hmem.mp hsome
    exact absurd hcontradicts (hnone i)

/-- The second predictor is saturated, and its observation is a failure. -/
theorem aic_fitted_at_zero_and_31 : ∃ mu value,
    (Elementary.tabulated.standardLogit.inverseLink [0, 31]).outcome = .ok mu ∧
      Elementary.tabulated.aic [1, 0] [1] mu [1, 1] = .ok value ∧
      (value.IsFinite ↔ ∀ i, ¬Contradicts [0, 31] [1, 0] [1, 1] i) ∧
      (value.IsFinite ∨ value = infinity false) ∧
      ¬Contradicts [0, 31] [1, 0] [1, 1] 0 ∧ Contradicts [0, 31] [1, 0] [1, 1] 1 := by
  have hy : ([1, 0] : List Binary64).length = ([0, 31] : List Binary64).length := rfl
  have hlength : ([1, 1] : List Binary64).length = ([0, 31] : List Binary64).length := rfl
  obtain ⟨mu, value, hmu, hvalue, hfinite, hcases⟩ := aic_fitted_isFinite_iff
    expBounded_tabulated lnBounded_tabulated (List.cons_ne_nil _ _) (by decide +kernel) hy
    (by decide +kernel) hlength (by decide +kernel)
  refine ⟨mu, value, hmu, hvalue, hfinite, hcases, ?_, ?_⟩
  · rintro ⟨x, v, w, hx, -, -, hhigh, -⟩
    cases hx
    exact absurd hhigh (by decide +kernel)
  · exact ⟨31, 0, 1, rfl, rfl, rfl, by decide +kernel⟩

/-- One failure at a predictor of 31. -/
theorem aic_infinite_at_failure :
    (Logit.standard.inverseLink [31]).outcome = .ok [highestMean] ∧
      machine.aic [0] [1] [highestMean] [1] = .ok (infinity false) := by
  constructor
  · rw [Logit.inverseLink_of_ne_nil _ (List.cons_ne_nil _ _)]
    have hmean : Logit.standard.meanAt 31 = highestMean := by decide +kernel
    rw [List.map_cons, hmean, List.map_nil]
  · have hchecks : aicChecks [0] [1] [highestMean] [1] = .ok ⟨⟩ :=
      aicChecks_eq_ok_iff.mpr (by decide +kernel)
    have hsum : -2 * total (((rowsOf [0] [1] [highestMean] [1]).filter fun o => o.Contributes).map
        fun o => o.term machine) = infinity false := by decide +kernel
    rw [machine.aic_eq, hchecks, logLikelihood_eq_ok machine (by decide +kernel)]
    exact congrArg Except.ok hsum

end BinomialLogit
