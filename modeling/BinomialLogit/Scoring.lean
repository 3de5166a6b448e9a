import BinomialLogit.Deviance
import BinomialLogit.Logit
import BinomialLogit.StartingMeans
import BinomialLogit.Total

/-! Fitting by iteratively reweighted least squares, with an intercept and at most one covariate.
An iteration solves the normal equations of a weighted regression of the working responses; the
iterations are counted, not stopped by a criterion. -/

namespace BinomialLogit
set_option autoImplicit false
universe u

/-- Where a fit stands: predictors, means and the deviance of the means. -/
structure Fit (F : Type u) where
  eta : List F
  mu : List F
  deviance : F

structure Update (F : Type u) where
  intercept : F
  slope : F
  weights : List F
  fit : Fit F

section Step
variable {F : Type u} [Add F] [Sub F] [Mul F] [Div F] [Neg F] [OfNat F 0] [OfNat F 1] [OfNat F 2]

def products (xs ys : List F) : List F := xs.zipWith (· * ·) ys

def workingResponses (eta y mu slopes : List F) : List F :=
  eta.zipWith (· + ·) ((y.zipWith (· - ·) mu).zipWith (· / ·) slopes)

def workingWeights (weights slopes variances : List F) : List F :=
  (products (products weights slopes) slopes).zipWith (· / ·) variances

/-- The solution of the normal equations for weights `w` and responses `z`: intercept and slope.
Without a covariate it is the weighted mean. -/
def solve (x : Option (List F)) (w z : List F) : F × F :=
  match x with
  | none => (total (products w z) / total w, 0)
  | some x =>
    let s0 := total w
    let s1 := total (products w x)
    let s2 := total (products (products w x) x)
    let t0 := total (products w z)
    let t1 := total (products (products w x) z)
    let slope := (s0 * t1 - s1 * t0) / (s0 * s2 - s1 * s1)
    ((t0 - slope * s1) / s0, slope)

def predictors (n : Nat) (x : Option (List F)) (intercept slope : F) : List F :=
  match x with
  | none => List.replicate n intercept
  | some x => x.map fun x => intercept + slope * x

variable [LT F] [DecidableLT F] [LE F] [DecidableLE F]

namespace Logit

def fitAt (L : Logit F) (y weights eta mu : List F) : Answer F (Fit F) := do
  let residuals ← (L.devianceResiduals y mu weights : Except _ _)
  return ⟨eta, mu, total residuals⟩

def update (L : Logit F) (x : Option (List F)) (y weights : List F) (fit : Fit F) :
    Answer F (Update F) := do
  let slopes ← L.meanDerivative fit.eta
  let variances ← (variance fit.mu : Except _ _)
  let z := workingResponses fit.eta y fit.mu slopes
  let w := workingWeights weights slopes variances
  let (intercept, slope) := solve x w z
  let eta := predictors y.length x intercept slope
  let mu ← L.inverseLink eta
  let fit ← L.fitAt y weights eta mu
  return ⟨intercept, slope, w, fit⟩

end Logit

end Step

/-- What a run of iterations leaves: the updates made, and the fault that ended it, if one did. -/
structure Updates (F : Type u) where
  log : List Record
  made : List (Update F)
  fault : Option (Fault F)

/-- At most so many iterations from a fit. -/
def iterate {F : Type u} (next : Fit F → Answer F (Update F)) : Nat → Fit F → Updates F
  | 0, _ => ⟨[], [], none⟩
  | count + 1, fit =>
    match next fit with
    | ⟨log, .error e⟩ => ⟨log, [], some e⟩
    | ⟨log, .ok made⟩ =>
      let rest := iterate next count made.fit
      ⟨log ++ rest.log, made :: rest.made, rest.fault⟩

/-- A whole run: the fit at the starting means, if there is one, and the iterations from it. -/
structure Scoring extends Updates Binary64 where
  start : Option (Fit Binary64)

namespace Logit

def start (L : Logit Binary64) (y weights : List Binary64) : Answer Binary64 (Fit Binary64) := do
  let mu ← startingMeans y weights
  let eta ← (L.link mu : Except _ _)
  L.fitAt y weights eta mu

def scoring (L : Logit Binary64) (x : Option (List Binary64)) (y weights : List Binary64)
    (count : Nat) : Scoring :=
  match L.start y weights with
  | ⟨log, .error e⟩ => ⟨⟨log, [], some e⟩, none⟩
  | ⟨log, .ok fit⟩ =>
    let rest := iterate (L.update x y weights) count fit
    ⟨{ rest with log := log ++ rest.log }, some fit⟩

end Logit

end BinomialLogit
