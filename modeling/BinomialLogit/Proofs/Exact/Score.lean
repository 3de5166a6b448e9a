import BinomialLogit.Proofs.Exact.Odds
import BinomialLogit.Scoring
import Mathlib.Algebra.BigOperators.Group.List.Basic
import Mathlib.Algebra.BigOperators.Ring.List
import Mathlib.Tactic.LinearCombination
import Mathlib.Tactic.NormNum

/-! Where an iteration stands still, over an exact ordered field. The coefficients of a weighted
regression are those whose residuals it weighs to zero; with working responses and working weights
these are the residuals of the means, because the derivative in both cancels against the variance. -/

namespace BinomialLogit
set_option autoImplicit false
universe u

def residuals {F : Type u} [Sub F] (y mu : List F) : List F := y.zipWith (· - ·) mu

section Regression
variable {F : Type u} [Field F]

/-- Weighted residuals add up to zero, and so do their products with the covariate if there is
one. -/
structure ScoreEquations (x : Option (List F)) (weights residuals : List F) : Prop where
  intercept : total (products weights residuals) = 0
  covariate : ∀ xs, x = some xs → total (products (products weights xs) residuals) = 0

/-- The weights do not vanish together, and they do not leave the covariate constant. -/
structure Solvable (x : Option (List F)) (w : List F) : Prop where
  total : total w ≠ 0
  determinant : ∀ xs, x = some xs → BinomialLogit.total w * BinomialLogit.total
    (products (products w xs) xs) - BinomialLogit.total (products w xs) *
      BinomialLogit.total (products w xs) ≠ 0

/-- An observation. Where there is no covariate its place is not looked at. -/
structure Row (F : Type u) where
  covariate : F
  response : F
  weight : F

theorem total_eq_sum (xs : List F) : total xs = xs.sum := by
  unfold total
  exact List.sum_eq_foldl.symm

theorem products_map {rows : List (Row F)} {f g : Row F → F} :
    products (rows.map f) (rows.map g) = rows.map fun row => f row * g row := by
  unfold products
  rw [List.zipWith_map, List.zipWith_self]

omit [Field F] in
theorem exists_rows {x : Option (List F)} {y weights : List F}
    (hweights : weights.length = y.length) (hx : ∀ xs, x = some xs → xs.length = y.length) :
    ∃ rows : List (Row F), y = rows.map Row.response ∧ weights = rows.map Row.weight ∧
      ∀ xs, x = some xs → xs = rows.map Row.covariate := by
  obtain ⟨cs, hcs, hsame⟩ : ∃ cs : List F, cs.length = y.length ∧ ∀ xs, x = some xs → xs = cs := by
    cases x with
    | none => exact ⟨y, rfl, nofun⟩
    | some xs => exact ⟨xs, hx xs rfl, fun _ h => (Option.some.inj h).symm⟩
  have hrows : (y.zip weights).length = y.length := by simp [hweights]
  refine ⟨(cs.zip (y.zip weights)).map fun t => ⟨t.1, t.2.1, t.2.2⟩, ?_, ?_, ?_⟩
  · calc y = ((cs.zip (y.zip weights)).map Prod.snd).map Prod.fst := by
          rw [List.map_snd_zip (by omega), List.map_fst_zip (by omega)]
      _ = _ := by rw [List.map_map, List.map_map]; rfl
  · calc weights = ((cs.zip (y.zip weights)).map Prod.snd).map Prod.snd := by
          rw [List.map_snd_zip (by omega), List.map_snd_zip (by omega)]
      _ = _ := by rw [List.map_map, List.map_map]; rfl
  · intro xs hxs
    calc xs = (cs.zip (y.zip weights)).map Prod.fst := by
          rw [hsame xs hxs, List.map_fst_zip (by omega)]
      _ = _ := by rw [List.map_map]; rfl

/-- Two equations with a symmetric matrix and what Cramer's rule makes of them. -/
theorem solution_iff {s0 s1 s2 t0 t1 a b : F} (h0 : s0 ≠ 0) (hdet : s0 * s2 - s1 * s1 ≠ 0) :
    ((t0 - (s0 * t1 - s1 * t0) / (s0 * s2 - s1 * s1) * s1) / s0 = a ∧
      (s0 * t1 - s1 * t0) / (s0 * s2 - s1 * s1) = b) ↔
    t0 = a * s0 + b * s1 ∧ t1 = a * s1 + b * s2 := by
  constructor
  · intro h
    obtain ⟨ha, hb⟩ := h
    rw [hb, div_eq_iff h0] at ha
    rw [div_eq_iff hdet] at hb
    have h1 : s0 * t1 = s0 * (a * s1 + b * s2) := by linear_combination hb + s1 * ha
    exact ⟨by linear_combination ha, mul_left_cancel₀ h0 h1⟩
  · intro h
    obtain ⟨rfl, rfl⟩ := h
    have hb : (s0 * (a * s1 + b * s2) - s1 * (a * s0 + b * s1)) / (s0 * s2 - s1 * s1) = b := by
      rw [div_eq_iff hdet]
      ring
    rw [hb, div_eq_iff h0]
    exact ⟨by ring, rfl⟩

/-- Weighted sums of what responses differ from predictors by. -/
theorem total_map_sub_mul {rows : List (Row F)} (w z : Row F → F) (a b : F) :
    total (rows.map fun row => w row * (z row - (a + b * row.covariate))) =
      total (rows.map fun row => w row * z row) -
        (a * total (rows.map w) + b * total (rows.map fun row => w row * row.covariate)) := by
  simp only [total_eq_sum]
  induction rows with
  | nil => simp
  | cons row rows ih =>
    simp only [List.map_cons, List.sum_cons, ih]
    ring

/-- The solution of the regression leaves residuals that the weights weigh to zero. -/
theorem solve_eq_iff {rows : List (Row F)} {x : Option (List F)}
    (hx : ∀ xs, x = some xs → xs = rows.map Row.covariate) (w z : Row F → F)
    (hsolvable : Solvable x (rows.map w)) {a b : F} (hb : x = none → b = 0) :
    solve x (rows.map w) (rows.map z) = (a, b) ↔
      ScoreEquations x (rows.map w) (rows.map fun row => z row - (a + b * row.covariate)) := by
  obtain ⟨htotal, hdet⟩ := hsolvable
  cases x with
  | none =>
    obtain rfl := hb rfl
    unfold solve
    dsimp only
    rw [Prod.mk.injEq, div_eq_iff htotal, products_map]
    constructor
    · intro h
      constructor
      · rw [products_map, total_map_sub_mul, h.1]
        ring
      · nofun
    · intro h
      have hzero := h.intercept
      rw [products_map, total_map_sub_mul] at hzero
      exact ⟨by linear_combination hzero, rfl⟩
  | some xs =>
    obtain rfl := hx xs rfl
    have hdet := hdet _ rfl
    simp only [products_map] at hdet
    unfold solve
    dsimp only
    simp only [products_map]
    rw [Prod.mk.injEq, solution_iff htotal hdet]
    constructor
    · intro h
      obtain ⟨h0, h1⟩ := h
      constructor
      case intercept =>
        rw [products_map, total_map_sub_mul, h0]
        ring
      case covariate =>
        intro xs hxs
        obtain rfl := hx xs hxs
        rw [products_map, products_map, total_map_sub_mul, h1]
        ring
    · intro h
      have h0 := h.intercept
      have h1 := h.covariate _ rfl
      rw [products_map, total_map_sub_mul] at h0
      rw [products_map, products_map, total_map_sub_mul] at h1
      exact ⟨by linear_combination h0, by linear_combination h1⟩

theorem ScoreEquations.congr {rows : List (Row F)} {x : Option (List F)}
    (hx : ∀ xs, x = some xs → xs = rows.map Row.covariate) {w w' f f' : Row F → F}
    (hproducts : ∀ row ∈ rows, w row * f row = w' row * f' row)
    (h : ScoreEquations x (rows.map w) (rows.map f)) :
    ScoreEquations x (rows.map w') (rows.map f') := by
  constructor
  case intercept =>
    have h0 := h.intercept
    rw [products_map] at h0 ⊢
    rw [← List.map_congr_left hproducts, h0]
  case covariate =>
    intro xs hxs
    have h1 := h.covariate xs hxs
    obtain rfl := hx xs hxs
    have hsame : ∀ row ∈ rows,
        w row * row.covariate * f row = w' row * row.covariate * f' row := by
      intro row hrow
      rw [mul_right_comm, hproducts row hrow, mul_right_comm]
    rw [products_map, products_map] at h1 ⊢
    rw [← List.map_congr_left hsame, h1]

theorem predictors_map {rows : List (Row F)} {x : Option (List F)}
    (hx : ∀ xs, x = some xs → xs = rows.map Row.covariate) {a b : F} (hb : x = none → b = 0) :
    predictors rows.length x a b = rows.map fun row => a + b * row.covariate := by
  cases x with
  | none =>
    obtain rfl := hb rfl
    simp [predictors]
  | some xs =>
    obtain rfl := hx xs rfl
    exact List.map_map

end Regression

section Iteration
variable {F : Type u} [Field F] [LinearOrder F] [IsStrictOrderedRing F] {L : Logit F}
  {x : Option (List F)} {y weights : List F} {fit : Fit F} {intercept slope : F}

structure Fit.IsAt (L : Logit F) (x : Option (List F)) (n : Nat) (intercept slope : F)
    (fit : Fit F) : Prop where
  eta : fit.eta = predictors n x intercept slope
  mu : (L.inverseLink fit.eta).outcome = .ok fit.mu

def Logit.weightsAt (L : Logit F) (weights : List F) (fit : Fit F) : List F :=
  workingWeights weights (fit.eta.map L.slopeAt) (fit.mu.map varianceAt)

def Logit.responsesAt (L : Logit F) (y : List F) (fit : Fit F) : List F :=
  workingResponses fit.eta y fit.mu (fit.eta.map L.slopeAt)

omit [IsStrictOrderedRing F] in
theorem Fit.IsAt.ne_nil {n : Nat} (h : fit.IsAt L x n intercept slope) : fit.eta ≠ [] := by
  intro hnil
  have hmu := h.mu
  rw [hnil, L.inverseLink_nil] at hmu
  cases hmu

omit [IsStrictOrderedRing F] in
theorem Fit.IsAt.mu_eq {n : Nat} (h : fit.IsAt L x n intercept slope) :
    fit.mu = fit.eta.map L.meanAt := by
  have hmu := h.mu
  rw [L.inverseLink_of_ne_nil h.ne_nil] at hmu
  exact (Except.ok.inj hmu).symm

omit [LinearOrder F] [IsStrictOrderedRing F] in
theorem length_predictors_eq {n : Nat} (hx : ∀ xs, x = some xs → xs.length = n) :
    (predictors n x intercept slope).length = n := by
  cases x with
  | none => exact List.length_replicate
  | some xs => simpa [predictors] using hx xs rfl

omit [IsStrictOrderedRing F] in
/-- An iteration from a fit solves the regression of its working responses. -/
theorem Logit.update_outcome (hweights : weights.length = y.length)
    (hx : ∀ xs, x = some xs → xs.length = y.length)
    (hfit : fit.IsAt L x y.length intercept slope) :
    ∃ made, (L.update x y weights fit).outcome = .ok made ∧
      made.weights = L.weightsAt weights fit ∧
      (made.intercept, made.slope) = solve x (L.weightsAt weights fit) (L.responsesAt y fit) := by
  have hmu : fit.mu ≠ [] := by
    rw [hfit.mu_eq]
    simpa using hfit.ne_nil
  have hlength : ∀ a b, (predictors y.length x a b).length = y.length := fun a b =>
    length_predictors_eq hx
  have hy : 0 < y.length := by
    rw [← hlength intercept slope, ← hfit.eta]
    exact List.length_pos_iff.mpr hfit.ne_nil
  unfold update weightsAt responsesAt
  simp only [L.meanDerivative_of_ne_nil hfit.ne_nil, variance_of_ne_nil hmu, Answer.mk_ok_bind,
    Answer.monadLift_eq, Answer.silent_ok_bind]
  generalize solve x _ _ = coefficients
  obtain ⟨a, b⟩ := coefficients
  have hnext := hlength a b
  generalize predictors y.length x a b = eta at hnext ⊢
  have heta : eta ≠ [] := List.length_pos_iff.mp (hnext ▸ hy)
  have hmeans : (eta.map L.meanAt).length = y.length := by simpa using hnext
  simp only [L.inverseLink_of_ne_nil heta, fitAt,
    L.devianceResiduals_eq_ok (.inl hmeans) (.inl hweights), Answer.mk_ok_bind,
    Answer.monadLift_eq, Answer.silent_ok_bind]
  exact ⟨_, rfl, rfl, rfl⟩

section Rows
variable {rows : List (Row F)} {e : Row F → F} (heta : fit.eta = rows.map e)
  (hmu : fit.mu = rows.map fun row => L.meanAt (e row))
include heta hmu

omit [IsStrictOrderedRing F] in
theorem Logit.weightsAt_map : L.weightsAt (rows.map Row.weight) fit = rows.map fun row =>
    row.weight * L.slopeAt (e row) * L.slopeAt (e row) / varianceAt (L.meanAt (e row)) := by
  unfold weightsAt workingWeights
  rw [heta, hmu, List.map_map, List.map_map, products_map, products_map, List.zipWith_map,
    List.zipWith_self]
  rfl

omit [IsStrictOrderedRing F] in
theorem Logit.responsesAt_map : L.responsesAt (rows.map Row.response) fit = rows.map fun row =>
    e row + (row.response - L.meanAt (e row)) / L.slopeAt (e row) := by
  unfold responsesAt workingResponses
  rw [heta, hmu, List.map_map, List.zipWith_map, List.zipWith_self, List.zipWith_map,
    List.zipWith_self, List.zipWith_map, List.zipWith_self]
  rfl

end Rows

/-- The working residual of an observation weighs as much as the residual of its mean. -/
theorem working_residual (hexp : ∀ t, 0 < L.exp t) {e : F} (h : ¬L.guards.Saturated e)
    (v w : F) :
    w * L.slopeAt e * L.slopeAt e / varianceAt (L.meanAt e) *
      (e + (v - L.meanAt e) / L.slopeAt e - e) = w * (v - L.meanAt e) := by
  have hpos := L.slopeAt_pos_of_not_saturated hexp h
  rw [← L.slopeAt_eq_varianceAt hexp h]
  field_simp
  ring

/-- An iteration returns the coefficients it comes from if and only if the residuals of their means
satisfy the score equations. -/
theorem update_returns_iff_score (hexp : ∀ t, 0 < L.exp t) (hweights : weights.length = y.length)
    (hx : ∀ xs, x = some xs → xs.length = y.length)
    (hfit : fit.IsAt L x y.length intercept slope) (hslope : x = none → slope = 0)
    (hsaturated : ∀ e ∈ fit.eta, ¬L.guards.Saturated e)
    (hsolvable : Solvable x (L.weightsAt weights fit)) :
    (L.meanDerivative fit.eta).outcome = variance fit.mu ∧
      ∃ made, (L.update x y weights fit).outcome = .ok made ∧
        made.weights = L.weightsAt weights fit ∧
        (made.intercept = intercept ∧ made.slope = slope ↔
          ScoreEquations x weights (residuals y fit.mu)) := by
  constructor
  · rw [L.meanDerivative_of_ne_nil hfit.ne_nil, hfit.mu_eq,
      variance_of_ne_nil (by simpa using hfit.ne_nil), List.map_map]
    refine congrArg Except.ok (List.map_congr_left ?_)
    intro e he
    exact L.slopeAt_eq_varianceAt hexp (hsaturated e he)
  · obtain ⟨made, hmade, hw, hsolve⟩ := L.update_outcome hweights hx hfit
    refine ⟨made, hmade, hw, ?_⟩
    obtain ⟨rows, rfl, rfl, hrows⟩ := exists_rows hweights hx
    have heta : fit.eta = rows.map fun row => intercept + slope * row.covariate := by
      rw [hfit.eta, List.length_map, predictors_map hrows hslope]
    have hmu : fit.mu = rows.map fun row => L.meanAt (intercept + slope * row.covariate) := by
      rw [hfit.mu_eq, heta, List.map_map]
      rfl
    have hresiduals : residuals (rows.map Row.response) fit.mu = rows.map fun row =>
        row.response - L.meanAt (intercept + slope * row.covariate) := by
      rw [residuals, hmu, List.zipWith_map, List.zipWith_self]
    rw [L.weightsAt_map heta hmu] at hsolvable hsolve
    rw [L.responsesAt_map heta hmu] at hsolve
    rw [← Prod.mk.injEq, hsolve, solve_eq_iff hrows _ _ hsolvable hslope, hresiduals]
    have hcancel := fun row (hrow : row ∈ rows) => working_residual hexp
      (hsaturated _ (heta ▸ List.mem_map_of_mem hrow)) row.response row.weight
    constructor
    · exact .congr hrows hcancel
    · exact .congr hrows fun row hrow => (hcancel row hrow).symm

end Iteration

/-- A positive function that can be computed takes the place of the exponential. -/
def Logit.computable : Logit ℚ where
  exp t := 1 + t * t
  ln t := t
  guards := ⟨30, 1 / 2 ^ 52⟩

/-- Predictors 0, 1, 2 and responses that miss their means by 1/12, -1/6, 1/12. -/
theorem update_returns_intercept_slope :
    ∃ made, (Logit.computable.update (some [0, 1, 2]) [7 / 12, 1 / 2, 11 / 12] [1, 1, 1]
      ⟨[0, 1, 2], [1 / 2, 2 / 3, 5 / 6], 0⟩).outcome = .ok made ∧
      made.intercept = 0 ∧ made.slope = 1 := by
  have hexp : ∀ t, 0 < Logit.computable.exp t := by
    intro t
    change 0 < 1 + t * t
    linarith [mul_self_nonneg t]
  have hfit : Fit.IsAt Logit.computable (some [0, 1, 2]) 3 0 1
      ⟨[0, 1, 2], [1 / 2, 2 / 3, 5 / 6], 0⟩ := by
    constructor
    case eta => decide +kernel
    case mu =>
      rw [Logit.inverseLink_of_ne_nil _ (by decide)]
      exact congrArg Except.ok (by decide +kernel)
  have hsolvable : Solvable (some [0, 1, 2]) (Logit.computable.weightsAt [1, 1, 1]
      ⟨[0, 1, 2], [1 / 2, 2 / 3, 5 / 6], 0⟩) := by
    constructor
    case total => decide +kernel
    case determinant =>
      rintro xs ⟨⟩
      decide +kernel
  have hscore : ScoreEquations (some [0, 1, 2]) [1, 1, 1]
      (residuals [7 / 12, 1 / 2, 11 / 12] [1 / 2, 2 / 3, (5 / 6 : ℚ)]) := by
    constructor
    case intercept => decide +kernel
    case covariate =>
      rintro xs ⟨⟩
      decide +kernel
  have hweights : [1, 1, (1 : ℚ)].length = [7 / 12, 1 / 2, (11 / 12 : ℚ)].length := rfl
  obtain ⟨-, made, hmade, -, hiff⟩ := update_returns_iff_score hexp hweights
    (by rintro xs ⟨⟩; rfl) hfit nofun (by decide +kernel) hsolvable
  exact ⟨made, hmade, hiff.mpr hscore⟩

end BinomialLogit
