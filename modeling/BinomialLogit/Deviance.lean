import BinomialLogit.Argument
import BinomialLogit.Binary64.Elementary

/-! Deviance residuals of the binomial family: for each observation, twice its weight times the
divergence of its mean from its response. -/

namespace BinomialLogit
set_option autoImplicit false
universe u

section
variable {F : Type u} [Add F] [Sub F] [Mul F] [Div F] [OfNat F 0] [OfNat F 1] [OfNat F 2]
  [LE F] [DecidableLE F]

/-- The term `y ln (y / mu)`, which is zero where `y` is, whatever `mu` is. -/
def Elementary.logRatioTerm (fns : Elementary F) (y mu : F) : F :=
  if y ≤ 0 ∧ 0 ≤ y then 0 else y * fns.ln (y / mu)

def Elementary.devianceAt (fns : Elementary F) (y mu weight : F) : F :=
  2 * weight * (fns.logRatioTerm y mu + fns.logRatioTerm (1 - y) (1 - mu))

def Elementary.devianceResiduals (fns : Elementary F) (y mu weights : List F) :
    Except (Fault F) (List F) := do
  let mu ← recycle "mu" y.length mu
  let weights ← recycle "wt" y.length weights
  return (y.zip (mu.zip weights)).map fun (y, m, w) => fns.devianceAt y m w

theorem Elementary.devianceResiduals_eq_ok (fns : Elementary F) {y mu weights : List F}
    (hmu : mu.length = y.length ∨ mu.length = 1)
    (hweights : weights.length = y.length ∨ weights.length = 1) :
    fns.devianceResiduals y mu weights =
      .ok ((y.zip ((expand y.length mu).zip (expand y.length weights))).map
        fun (y, m, w) => fns.devianceAt y m w) := by
  unfold devianceResiduals
  rw [recycle_eq_ok_iff.mpr ⟨hmu, rfl⟩]
  change (do let weights ← recycle "wt" y.length weights; _) = _
  rw [recycle_eq_ok_iff.mpr ⟨hweights, rfl⟩]
  rfl

end

end BinomialLogit
