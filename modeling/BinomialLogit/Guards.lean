import BinomialLogit.Fault

/-! Guards: beyond the threshold, in either direction, the exponential is not evaluated but
replaced by a fixed odds, the floor below and its reciprocal above. -/

namespace BinomialLogit
set_option autoImplicit false
universe u

structure Guards (F : Type u) where
  threshold : F
  floor : F
  deriving DecidableEq

namespace Guards
variable {F : Type u}

def ceiling [OfNat F 1] [Div F] (g : Guards F) : F := 1 / g.floor

/-- A predictor beyond the threshold; the threshold itself is not, nor is a NaN. -/
def Saturated [Neg F] [LT F] (g : Guards F) (eta : F) : Prop :=
  g.threshold < eta ∨ eta < -g.threshold

instance [Neg F] [LT F] [DecidableLT F] (g : Guards F) (eta : F) : Decidable (g.Saturated eta) :=
  inferInstanceAs (Decidable (_ ∨ _))

def saturatedCount [Neg F] [LT F] [DecidableLT F] (g : Guards F) (eta : List F) : Nat :=
  eta.countP fun e => g.Saturated e

def standard : Guards Binary64 := ⟨30, .epsilon⟩

def badThreshold : String := "threshold must be finite and strictly positive."

def badFloor : String := "floor must be finite and strictly inside (0, 1)."

/-- The threshold is positive and the floor lies strictly inside the unit interval. Neither is
infinite. -/
def Admissible (g : Guards Binary64) : Prop :=
  (g.threshold.IsFinite ∧ 0 < g.threshold) ∧ g.floor.IsFinite ∧ 0 < g.floor ∧ g.floor < 1

instance (g : Guards Binary64) : Decidable g.Admissible :=
  inferInstanceAs (Decidable (_ ∧ _))

/-- Guards from bounds; the threshold is examined first. -/
def ofBounds (threshold floor : Binary64) : Except (Fault Binary64) (Guards Binary64) :=
  if ¬(threshold.IsFinite ∧ 0 < threshold) then
    .error (.guardsRejected threshold floor badThreshold)
  else if ¬(floor.IsFinite ∧ 0 < floor ∧ floor < 1) then
    .error (.guardsRejected threshold floor badFloor)
  else .ok ⟨threshold, floor⟩

theorem ofBounds_eq_ok_iff {threshold floor : Binary64} {g : Guards Binary64} :
    ofBounds threshold floor = .ok g ↔ g = ⟨threshold, floor⟩ ∧ g.Admissible := by
  unfold ofBounds Admissible
  split
  · rename_i h
    constructor
    · rintro ⟨⟩
    · rintro ⟨rfl, ht, _⟩
      exact absurd ht h
  · rename_i ht
    split
    · rename_i h
      constructor
      · rintro ⟨⟩
      · rintro ⟨rfl, _, hf⟩
        exact absurd hf h
    · rename_i hf
      constructor
      · rintro ⟨rfl⟩
        exact ⟨rfl, Decidable.not_not.mp ht, Decidable.not_not.mp hf⟩
      · rintro ⟨rfl, _⟩
        rfl

end Guards

end BinomialLogit
