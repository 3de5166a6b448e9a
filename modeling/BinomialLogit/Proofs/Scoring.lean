import BinomialLogit.Proofs.Rows
import BinomialLogit.Proofs.StartingMeans
import BinomialLogit.Scoring

/-! Whole runs of the fit. Everything that can go wrong goes wrong before the first fit. From there
on the operations ask for nothing but vectors of the right length, whatever numbers are in them,
and an iteration makes vectors of the length it was given. -/

namespace BinomialLogit
set_option autoImplicit false

structure Aligned (x : Option (List Binary64)) (y weights : List Binary64) : Prop where
  weights : weights.length = y.length
  covariate : ∀ xs, x = some xs → xs.length = y.length

structure Fit.Sized (n : Nat) (fit : Fit Binary64) : Prop where
  eta : fit.eta.length = n
  mu : fit.mu.length = n

structure Update.Sized (n : Nat) (made : Update Binary64) : Prop where
  weights : made.weights.length = n
  fit : made.fit.Sized n

/-- What iterations put on record: each of them how many predictors are saturated where it begins,
and then how many are where it ends. -/
def iterationLog (n : Nat) : List Nat → List Record
  | before :: after :: rest =>
    .floored before n :: .saturated after n :: iterationLog n (after :: rest)
  | _ => []

def saturatedCounts (g : Guards Binary64) (fits : List (Fit Binary64)) : List Nat :=
  fits.map fun fit => g.saturatedCount fit.eta

/-- All of `count` iterations from a fit. -/
structure Updates.Complete (g : Guards Binary64) (n count : Nat) (fit : Fit Binary64)
    (run : Updates Binary64) : Prop where
  fault : run.fault = none
  length : run.made.length = count
  sized : ∀ made ∈ run.made, made.Sized n
  log : run.log = iterationLog n (saturatedCounts g (fit :: run.made.map Update.fit))

section Iterations
variable (L : Logit Binary64) {x : Option (List Binary64)} {y weights eta mu : List Binary64}
  {fit : Fit Binary64}

theorem length_workingWeights {n : Nat} {slopes variances : List Binary64}
    (hweights : weights.length = n) (hslopes : slopes.length = n)
    (hvariances : variances.length = n) :
    (workingWeights weights slopes variances).length = n := by
  simp [workingWeights, products, hweights, hslopes, hvariances]

theorem length_predictors (h : Aligned x y weights) (intercept slope : Binary64) :
    (predictors y.length x intercept slope).length = y.length := by
  cases x with
  | none => exact List.length_replicate
  | some xs =>
    have hxs := h.covariate xs rfl
    simpa [predictors] using hxs

theorem ne_nil_of_length_eq {xs : List Binary64} (h : xs.length = y.length) (hy : y ≠ []) :
    xs ≠ [] := by
  intro hxs
  rw [hxs] at h
  exact hy (List.length_eq_zero_iff.mp h.symm)

theorem Logit.fitAt_ok (hweights : weights.length = y.length) (hmu : mu.length = y.length) :
    ∃ deviance, L.fitAt y weights eta mu = ⟨[], .ok ⟨eta, mu, deviance⟩⟩ := by
  unfold fitAt
  rw [L.devianceResiduals_eq_ok (.inl hmu) (.inl hweights)]
  exact ⟨_, rfl⟩

theorem Logit.update_ok (h : Aligned x y weights) (hy : y ≠ []) (hfit : fit.Sized y.length) :
    ∃ made, L.update x y weights fit =
      ⟨[.floored (L.guards.saturatedCount fit.eta) y.length,
        .saturated (L.guards.saturatedCount made.fit.eta) y.length], .ok made⟩ ∧
      made.Sized y.length := by
  have hslopes := L.meanDerivative_of_ne_nil (ne_nil_of_length_eq hfit.eta hy)
  have hvariances := variance_of_ne_nil (ne_nil_of_length_eq hfit.mu hy)
  unfold update
  simp only [hslopes, hvariances, Answer.mk_ok_bind, Answer.monadLift_eq, Answer.silent_ok_bind]
  have hmade : (workingWeights weights (fit.eta.map L.slopeAt)
      (fit.mu.map varianceAt)).length = y.length :=
    length_workingWeights h.weights (by simpa using hfit.eta) (by simpa using hfit.mu)
  generalize workingWeights weights (fit.eta.map L.slopeAt) (fit.mu.map varianceAt) = w at hmade ⊢
  generalize solve x w _ = coefficients
  obtain ⟨intercept, slope⟩ := coefficients
  have heta := length_predictors h intercept slope
  generalize predictors y.length x intercept slope = eta at heta ⊢
  have hmu : (eta.map L.meanAt).length = y.length := by simpa using heta
  obtain ⟨deviance, hdeviance⟩ : ∃ deviance, L.fitAt y weights eta (eta.map L.meanAt) =
    ⟨[], .ok ⟨eta, eta.map L.meanAt, deviance⟩⟩ := L.fitAt_ok h.weights hmu
  refine ⟨⟨intercept, slope, w, eta, eta.map L.meanAt, deviance⟩, ?_, hmade, heta, hmu⟩
  simp only [L.inverseLink_of_ne_nil (ne_nil_of_length_eq heta hy), hdeviance, Answer.mk_ok_bind,
    hfit.eta, heta]
  rfl

theorem iterate_succ_of_ok {next : Fit Binary64 → Answer Binary64 (Update Binary64)}
    {log : List Record} {made : Update Binary64} (h : next fit = ⟨log, .ok made⟩) (count : Nat) :
    iterate next (count + 1) fit =
      ⟨log ++ (iterate next count made.fit).log, made :: (iterate next count made.fit).made,
        (iterate next count made.fit).fault⟩ := by
  rw [iterate, h]

theorem Logit.iterate_complete (h : Aligned x y weights) (hy : y ≠ []) (count : Nat)
    (hfit : fit.Sized y.length) :
    (iterate (L.update x y weights) count fit).Complete L.guards y.length count fit := by
  induction count generalizing fit with
  | zero => exact ⟨rfl, rfl, nofun, rfl⟩
  | succ count ih =>
    obtain ⟨made, hmade, hsized⟩ := L.update_ok h hy hfit
    have hrest := ih hsized.fit
    rw [iterate_succ_of_ok hmade]
    constructor
    case fault => exact hrest.fault
    case length => exact congrArg (· + 1) hrest.length
    case sized =>
      intro other hother
      rcases List.mem_cons.mp hother with rfl | hother
      · exact hsized
      · exact hrest.sized other hother
    case log =>
      change _ ++ Updates.log _ = _
      rw [hrest.log]
      rfl

end Iterations

structure FirstMeanBeyond (y weights : List Binary64) (i : Nat) (m : Binary64) : Prop where
  mean : (meansAtStart y weights)[i]? = some m
  beyond : Beyond m
  before : ∀ j u, j < i → (meansAtStart y weights)[j]? = some u → ¬Beyond u

section Start
variable (L : Logit Binary64) {y weights : List Binary64}

theorem Logit.predictorAt_eq_error_iff {m c : Binary64} :
    L.predictorAt m = .error c ↔ Beyond m ∧ m = c := by
  by_cases hm : Beyond m
  · simp [L.predictorAt_eq_error hm, hm]
  · simp [L.predictorAt_eq_ok hm, hm]

theorem Logit.exists_predictorAt_iff {m : Binary64} :
    (∃ e, L.predictorAt m = .ok e) ↔ ¬Beyond m := by
  by_cases hm : Beyond m
  · simp [L.predictorAt_eq_error hm, hm]
  · simp [L.predictorAt_eq_ok hm, hm]

theorem Logit.start_refused (h : weights.length = y.length) (hunit : ¬∀ v ∈ y, InUnit v) :
    ∃ i v, FirstBadResponse y i v ∧
      L.start y weights = ⟨[], .error (.responseOutside i v)⟩ := by
  obtain ⟨i, v, hfirst, hrefused⟩ := exists_startingMeans_refused h hunit
  refine ⟨i, v, hfirst, ?_⟩
  unfold start
  rw [hrefused]
  rfl

theorem Logit.start_empty : L.start [] [] = ⟨[], .error (.empty "mu")⟩ := rfl

theorem firstMeanBeyond_of_firstError {i : Nat} {m c : Binary64}
    (h : FirstError L.predictorAt (meansAtStart y weights) i m c) :
    FirstMeanBeyond y weights i m ∧ m = c := by
  obtain ⟨hbeyond, hreported⟩ := L.predictorAt_eq_error_iff.mp h.error
  refine ⟨⟨h.element, hbeyond, ?_⟩, hreported⟩
  intro j u hj hu
  exact L.exists_predictorAt_iff.mp (h.before j u hj hu)

section Means
variable (h : weights.length = y.length) (hunit : ∀ v ∈ y, InUnit v) (hy : y ≠ [])
include h hunit hy

omit hunit hy in
theorem length_meansAtStart : (meansAtStart y weights).length = y.length := by
  simp [meansAtStart, h]

theorem Logit.start_eq : L.start y weights =
    (⟨startLog y weights, mapLocated .meanOutside L.predictorAt (meansAtStart y weights)⟩ >>=
      fun eta => L.fitAt y weights eta (meansAtStart y weights)) := by
  have hmeans : meansAtStart y weights ≠ [] := ne_nil_of_length_eq (length_meansAtStart h) hy
  unfold start
  rw [startingMeans_of_inUnit h hunit, Answer.mk_ok_bind, L.link_eq_mapLocated hmeans]
  cases mapLocated Fault.meanOutside L.predictorAt (meansAtStart y weights) with
  | error e => exact Answer.ext (List.append_nil _) rfl
  | ok eta => rfl

theorem Logit.start_beyond (hbeyond : ¬∀ m ∈ meansAtStart y weights, ¬Beyond m) :
    ∃ i m, FirstMeanBeyond y weights i m ∧
      L.start y weights = ⟨startLog y weights, .error (.meanOutside i m)⟩ := by
  have hpredictors : ¬∀ m ∈ meansAtStart y weights, ∃ e, L.predictorAt m = .ok e := by
    simpa only [L.exists_predictorAt_iff] using hbeyond
  obtain ⟨i, m, c, hfirst⟩ := exists_firstError hpredictors
  obtain ⟨hmean, rfl⟩ := firstMeanBeyond_of_firstError L hfirst
  refine ⟨i, m, hmean, ?_⟩
  rw [L.start_eq h hunit hy, hfirst.mapLocated_eq]
  rfl

theorem Logit.start_ok (hmeans : ∀ m ∈ meansAtStart y weights, ¬Beyond m) :
    ∃ fit, L.start y weights = ⟨startLog y weights, .ok fit⟩ ∧ fit.Sized y.length := by
  have hpredictors : ∀ m ∈ meansAtStart y weights, ∃ e, L.predictorAt m = .ok e := by
    simpa only [L.exists_predictorAt_iff] using hmeans
  obtain ⟨eta, heta⟩ : ∃ eta,
    mapLocated Fault.meanOutside L.predictorAt (meansAtStart y weights) = .ok eta :=
      exists_mapLocated_eq_ok hpredictors
  have hmu := length_meansAtStart h
  have hlength : eta.length = y.length :=
    (mapLocated_eq_ok_iff.mp heta).length_eq.symm.trans hmu
  obtain ⟨deviance, hdeviance⟩ : ∃ deviance, L.fitAt y weights eta (meansAtStart y weights) =
    ⟨[], .ok ⟨eta, meansAtStart y weights, deviance⟩⟩ := L.fitAt_ok h hmu
  refine ⟨⟨eta, meansAtStart y weights, deviance⟩, ?_, hlength, hmu⟩
  rw [L.start_eq h hunit hy, heta, Answer.mk_ok_bind, hdeviance, List.append_nil]

end Means

end Start

structure Scoring.Fails (log : List Record) (e : Fault Binary64) (run : Scoring) : Prop where
  start : run.start = none
  made : run.made = []
  fault : run.fault = some e
  log : run.log = log

structure Scoring.Completes (g : Guards Binary64) (n count : Nat) (log : List Record)
    (run : Scoring) : Prop where
  start : ∃ fit, run.start = some fit ∧ fit.Sized n ∧
    run.log = log ++ iterationLog n (saturatedCounts g (fit :: run.made.map Update.fit))
  length : run.made.length = count
  sized : ∀ made ∈ run.made, made.Sized n
  fault : run.fault = none

/-- How a run comes out. -/
inductive ScoringOutcome (L : Logit Binary64) (y weights : List Binary64) (count : Nat)
    (run : Scoring) : Prop
  | response {i : Nat} {v : Binary64} (hfirst : FirstBadResponse y i v)
    (hrun : run.Fails [] (.responseOutside i v))
  | empty (hy : y = []) (hrun : run.Fails [] (.empty "mu"))
  /-- Only a negative weight leads here. -/
  | mean {i : Nat} {m : Binary64} (hunit : ∀ v ∈ y, InUnit v)
    (hfirst : FirstMeanBeyond y weights i m) (hnegative : ∃ w ∈ weights, w < 0)
    (hrun : run.Fails (startLog y weights) (.meanOutside i m))
  | complete (hunit : ∀ v ∈ y, InUnit v) (hy : y ≠ [])
    (hmeans : ∀ m ∈ meansAtStart y weights, ¬Beyond m)
    (hrun : run.Completes L.guards y.length count (startLog y weights))

section Run
variable (L : Logit Binary64) {x : Option (List Binary64)} {y weights : List Binary64}

theorem Logit.scoring_fails {log : List Record} {e : Fault Binary64}
    (h : L.start y weights = ⟨log, .error e⟩) (count : Nat) :
    (L.scoring x y weights count).Fails log e := by
  unfold scoring
  rw [h]
  exact ⟨rfl, rfl, rfl, rfl⟩

theorem Logit.scoring_completes {log : List Record} {fit : Fit Binary64}
    (h : L.start y weights = ⟨log, .ok fit⟩) (haligned : Aligned x y weights) (hy : y ≠ [])
    (hfit : fit.Sized y.length) (count : Nat) :
    (L.scoring x y weights count).Completes L.guards y.length count log := by
  have hrun := L.iterate_complete haligned hy count hfit
  unfold scoring
  rw [h]
  constructor
  case start =>
    refine ⟨fit, rfl, hfit, ?_⟩
    exact congrArg (log ++ ·) hrun.log
  case length => exact hrun.length
  case sized => exact hrun.sized
  case fault => exact hrun.fault

theorem negative_of_firstMeanBeyond {i : Nat} {m : Binary64} (hunit : ∀ v ∈ y, InUnit v)
    (h : FirstMeanBeyond y weights i m) : ∃ w ∈ weights, w < 0 := by
  obtain ⟨⟨v, w⟩, hrow, rfl⟩ := List.mem_map.mp (List.mem_of_getElem? h.mean)
  obtain ⟨hv, hw⟩ := List.of_mem_zip hrow
  refine ⟨w, hw, ?_⟩
  by_contra hnonneg
  exact not_beyond_startingMeanAt (hunit v hv) hnonneg h.beyond

/-- A run fails before its first fit or not at all. -/
theorem scoringOutcome (h : Aligned x y weights) (count : Nat) :
    ScoringOutcome L y weights count (L.scoring x y weights count) := by
  by_cases hunit : ∀ v ∈ y, InUnit v
  · by_cases hy : y = []
    · subst hy
      obtain rfl : weights = [] := List.length_eq_zero_iff.mp h.weights
      exact .empty rfl (L.scoring_fails L.start_empty count)
    · by_cases hmeans : ∀ m ∈ meansAtStart y weights, ¬Beyond m
      · obtain ⟨fit, hstart, hfit⟩ := L.start_ok h.weights hunit hy hmeans
        exact .complete hunit hy hmeans (L.scoring_completes hstart h hy hfit count)
      · obtain ⟨i, m, hfirst, hstart⟩ := L.start_beyond h.weights hunit hy hmeans
        exact .mean hunit hfirst (negative_of_firstMeanBeyond hunit hfirst)
          (L.scoring_fails hstart count)
  · obtain ⟨i, v, hfirst, hstart⟩ := L.start_refused h.weights hunit
    exact .response hfirst (L.scoring_fails hstart count)

end Run

theorem scoringOutcome_infinite_weight :
    Aligned (some [1, .nan]) [0.5, 1] [.infinity false, 2] ∧
      ScoringOutcome .standard [0.5, 1] [.infinity false, 2] 3
        (Logit.standard.scoring (some [1, .nan]) [0.5, 1] [.infinity false, 2] 3) := by
  have haligned : Aligned (some [1, .nan]) [0.5, 1] [.infinity false, 2] := by
    constructor
    case weights => rfl
    case covariate =>
      intro xs hxs
      cases hxs
      rfl
  exact ⟨haligned, scoringOutcome .standard haligned 3⟩

end BinomialLogit
