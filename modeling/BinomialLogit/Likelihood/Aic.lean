import BinomialLogit.Argument
import BinomialLogit.Likelihood.Mass
import BinomialLogit.Total

/-! Minus twice the log likelihood of binomial observations. An observation without trials
contributes nothing, whatever its mean. -/

namespace BinomialLogit
set_option autoImplicit false

structure Observation where
  response : Binary64
  /-- The number of trials, before rounding. -/
  size : Binary64
  mean : Binary64
  weight : Binary64

namespace Observation

def Contributes (o : Observation) : Prop := 0 < o.size

instance (o : Observation) : Decidable o.Contributes := inferInstanceAs (Decidable (_ < _))

def trials (o : Observation) : Nat := o.size.round.toCount

def successes (o : Observation) : Nat := (o.size * o.response).round.toCount

def term (fns : Elementary Binary64) (o : Observation) : Binary64 :=
  o.weight / o.size * fns.lnMass o.mean o.trials o.successes

def term? (fns : Elementary Binary64) (o : Observation) (i : Nat) :
    Except (Fault Binary64) Binary64 :=
  if 0 ≤ o.mean ∧ o.mean ≤ 1 then .ok (o.term fns) else .error (.meanOutside i o.mean)

end Observation

/-- Whether the numbers of trials were given: otherwise they are ones and the weights count. -/
def GivesTrials (trials : List Binary64) : Prop := ∃ t ∈ trials, 1 < t

instance (trials : List Binary64) : Decidable (GivesTrials trials) :=
  inferInstanceAs (Decidable (∃ t ∈ trials, 1 < t))

def observations (y sizes mu weights : List Binary64) : List Observation :=
  (y.zip (sizes.zip (mu.zip weights))).map fun (y, s, m, w) => ⟨y, s, m, w⟩

/-- The sum of the terms of the contributing observations; the first of them whose mean is not a
probability is reported. -/
def logLikelihood (fns : Elementary Binary64) (rows : List Observation) :
    Except (Fault Binary64) Binary64 := do
  let terms ← (rows.zipIdx.filter fun (o, _) => o.Contributes).mapM fun (o, i) => o.term? fns i
  return total terms

def Elementary.aic (fns : Elementary Binary64) (y trials mu weights : List Binary64) :
    Except (Fault Binary64) Binary64 := do
  let counts ← recycle "n" y.length trials
  let mu ← recycle "mu" y.length mu
  let weights ← recycle "wt" y.length weights
  requireResponses y
  let sizes := if GivesTrials trials then counts else weights
  let likelihood ← logLikelihood fns (observations y sizes mu weights)
  return -2 * likelihood

end BinomialLogit
