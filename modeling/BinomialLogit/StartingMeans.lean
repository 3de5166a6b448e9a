import BinomialLogit.Argument
import BinomialLogit.Decimal.Basic

/-! Starting means for iterative fitting: one trial and half a success are added to every
observation, which keeps the means away from the ends of the unit interval. Weights are numbers of
trials, so weight times response should be a whole number of successes; it goes on record how many
are not. -/

namespace BinomialLogit
set_option autoImplicit false

def countTolerance : Binary64 := 1e-3

/-- A number of successes away from every whole number; infinity and NaN are not. -/
def IsFractional (successes : Binary64) : Prop :=
  countTolerance < (successes - successes.round).abs

instance (successes : Binary64) : Decidable (IsFractional successes) :=
  inferInstanceAs (Decidable (_ < _))

def startingMeanAt (y weight : Binary64) : Binary64 := (weight * y + 0.5) / (weight + 1)

def startingMeans (y weights : List Binary64) : Answer Binary64 (List Binary64) := do
  let weights ← (recycle "wt" y.length weights : Except _ _)
  (requireResponses y : Except _ _)
  let rows := y.zip weights
  let fractional := rows.countP fun (y, w) => IsFractional (w * y)
  if 0 < fractional then
    .record (.fractional fractional y.length)
  return rows.map fun (y, w) => startingMeanAt y w

end BinomialLogit
