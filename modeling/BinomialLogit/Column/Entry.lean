import BinomialLogit.Column.Coercion
import BinomialLogit.Deviance
import BinomialLogit.Logit

/-! Operations applied to columns. The link and its relatives take columns of doubles only; the
deviance residuals coerce their columns, one after the other. -/

namespace BinomialLogit
set_option autoImplicit false

def Logit.linkOf (L : Logit Binary64) (mu : Column) : Answer Binary64 (List Binary64) := do
  let mu ← mu.doubles "mu"
  L.link mu

def Logit.inverseLinkOf (L : Logit Binary64) (eta : Column) : Answer Binary64 (List Binary64) := do
  let eta ← eta.doubles "eta"
  L.inverseLink eta

def Logit.meanDerivativeOf (L : Logit Binary64) (eta : Column) :
    Answer Binary64 (List Binary64) := do
  let eta ← eta.doubles "eta"
  L.meanDerivative eta

def Elementary.devianceResidualsOf (fns : Elementary Binary64) (y mu weights : Column) :
    Answer Binary64 (List Binary64) := do
  let y ← y.coerce "y"
  let mu ← mu.coerce "mu"
  let weights ← weights.coerce "wt"
  fns.devianceResiduals y mu weights

end BinomialLogit
