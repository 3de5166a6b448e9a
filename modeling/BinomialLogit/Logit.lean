import BinomialLogit.Argument
import BinomialLogit.Binary64.Elementary
import BinomialLogit.Guards

/-! The logit link between means in the unit interval and predictors on the line, its guarded
inverse, the derivative of the inverse and the variance of a mean. All of it is said over any
numbers with the operations it uses, so that it can be read over doubles and over exact fields. -/

namespace BinomialLogit
set_option autoImplicit false
universe u
variable {F : Type u}

structure Logit (F : Type u) extends Elementary F where
  guards : Guards F

namespace Logit

def name : String := "logit"

def guarded (guards : Guards Binary64) : Logit Binary64 := { Binary64.machine with guards }

def standard : Logit Binary64 := guarded .standard

end Logit

section Link
variable [Sub F] [Div F] [OfNat F 0] [OfNat F 1] [LT F] [DecidableLT F]

def odds (x : F) : Except (OutsideUnit F) F :=
  if x < 0 ∨ 1 < x then .error ⟨x⟩ else .ok (x / (1 - x))

namespace Logit

def linkAt (L : Logit F) (mu : F) : Except (OutsideUnit F) F := (odds mu).map L.ln

theorem linkAt_eq_ok (L : Logit F) {mu : F} (h : ¬(mu < 0 ∨ 1 < mu)) :
    L.linkAt mu = .ok (L.ln (mu / (1 - mu))) := by
  unfold linkAt odds
  rw [if_neg h]
  rfl

/-- The predictors of means. The first mean outside the unit interval is reported. -/
def link (L : Logit F) (mu : List F) : Except (Fault F) (List F) := do
  requireNonempty "mu" mu
  mu.zipIdx.mapM fun (m, i) => (L.linkAt m).mapError fun e => .meanOutside i e.value

@[simp] theorem link_nil (L : Logit F) : L.link [] = .error (.empty "mu") := rfl

theorem link_of_ne_nil (L : Logit F) {mu : List F} (h : mu ≠ []) :
    L.link mu = mu.zipIdx.mapM fun (m, i) =>
      (L.linkAt m).mapError fun e => .meanOutside i e.value := by
  unfold link
  rw [requireNonempty_of_ne_nil h]
  rfl

end Logit

end Link

section InverseLink
variable [Add F] [Div F] [Neg F] [OfNat F 1] [LT F] [DecidableLT F]

/-- The probability with the given odds. -/
def proportion (t : F) : F := t / (1 + t)

/-- The exponential between the thresholds and the guards' odds beyond them. -/
def Elementary.clampedExp (fns : Elementary F) (g : Guards F) (x : F) : F :=
  if x < -g.threshold then g.floor
  else if g.threshold < x then g.ceiling
  else fns.exp x

omit [Add F] in
theorem Elementary.clampedExp_cases (fns : Elementary F) (g : Guards F) (x : F) :
    (x < -g.threshold ∧ fns.clampedExp g x = g.floor) ∨
    (g.threshold < x ∧ fns.clampedExp g x = g.ceiling) ∨
    (¬g.Saturated x ∧ fns.clampedExp g x = fns.exp x) := by
  unfold clampedExp
  split
  · rename_i h
    exact .inl ⟨h, rfl⟩
  · rename_i hlow
    split
    · rename_i h
      exact .inr (.inl ⟨h, rfl⟩)
    · rename_i hhigh
      exact .inr (.inr ⟨fun h => h.elim hhigh hlow, rfl⟩)

namespace Logit

def meanAt (L : Logit F) (eta : F) : F := proportion (L.clampedExp L.guards eta)

def inverseLink (L : Logit F) (eta : List F) : Answer F (List F) := do
  requireNonempty "eta" eta
  .record (.saturated (L.guards.saturatedCount eta) eta.length)
  return eta.map L.meanAt

@[simp] theorem inverseLink_nil (L : Logit F) :
    L.inverseLink [] = ⟨[], .error (.empty "eta")⟩ := rfl

theorem inverseLink_of_ne_nil (L : Logit F) {eta : List F} (h : eta ≠ []) :
    L.inverseLink eta =
      ⟨[.saturated (L.guards.saturatedCount eta) eta.length], .ok (eta.map L.meanAt)⟩ := by
  unfold inverseLink
  rw [requireNonempty_of_ne_nil h]
  rfl

end Logit

end InverseLink

section Derivative
variable [Add F] [Mul F] [Div F] [Neg F] [OfNat F 1] [LT F] [DecidableLT F]

namespace Logit

def slopeAt (L : Logit F) (eta : F) : F :=
  if L.guards.Saturated eta then L.guards.floor
  else
    let t := L.exp eta
    t / ((1 + t) * (1 + t))

def meanDerivative (L : Logit F) (eta : List F) : Answer F (List F) := do
  requireNonempty "eta" eta
  .record (.floored (L.guards.saturatedCount eta) eta.length)
  return eta.map L.slopeAt

@[simp] theorem meanDerivative_nil (L : Logit F) :
    L.meanDerivative [] = ⟨[], .error (.empty "eta")⟩ := rfl

theorem meanDerivative_of_ne_nil (L : Logit F) {eta : List F} (h : eta ≠ []) :
    L.meanDerivative eta =
      ⟨[.floored (L.guards.saturatedCount eta) eta.length], .ok (eta.map L.slopeAt)⟩ := by
  unfold meanDerivative
  rw [requireNonempty_of_ne_nil h]
  rfl

end Logit

end Derivative

section Variance
variable [Sub F] [Mul F] [OfNat F 1]

def varianceAt (m : F) : F := m * (1 - m)

def variance (mu : List F) : Except (Fault F) (List F) := do
  requireNonempty "mu" mu
  return mu.map varianceAt

@[simp] theorem variance_nil : variance ([] : List F) = .error (.empty "mu") := rfl

theorem variance_of_ne_nil {mu : List F} (h : mu ≠ []) :
    variance mu = .ok (mu.map varianceAt) := by
  unfold variance
  rw [requireNonempty_of_ne_nil h]
  rfl

end Variance

/-- Means are usable when they lie strictly inside the unit interval. -/
def ValidMean [OfNat F 0] [OfNat F 1] [LT F] (mu : List F) : Prop := ∀ m ∈ mu, 0 < m ∧ m < 1

instance [OfNat F 0] [OfNat F 1] [LT F] [DecidableLT F] (mu : List F) :
    Decidable (ValidMean mu) :=
  inferInstanceAs (Decidable (∀ m ∈ mu, 0 < m ∧ m < 1))

def ValidPredictor (_eta : List F) : Prop := True

instance (eta : List F) : Decidable (ValidPredictor eta) := inferInstanceAs (Decidable True)

end BinomialLogit
