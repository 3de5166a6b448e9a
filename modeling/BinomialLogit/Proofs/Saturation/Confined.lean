import BinomialLogit.Proofs.Saturation.Substituted
import BinomialLogit.Scoring

/-! Which values of the exponential there are to know. The guards keep arguments beyond the threshold
from it and NaN passes between them, so exponentials that agree up to the threshold and at NaN cannot
be told apart by anything that evaluates them, be it a whole run of iterations. -/

namespace BinomialLogit
set_option autoImplicit false
open Binary64

structure AgreeWithin (bound : Binary64) (f f' : Binary64 → Binary64) : Prop where
  inside : ∀ x, -bound ≤ x → x ≤ bound → f x = f' x
  nan : f nan = f' nan

section Confined
variable {L : Logit Binary64} {exp : Binary64 → Binary64} (hg : L.guards.Admissible)
  (h : AgreeWithin L.guards.threshold L.exp exp)
include hg h

theorem AgreeWithin.eq_of_not_saturated {x : Binary64} (hx : ¬L.guards.Saturated x) :
    L.exp x = exp x := by
  by_cases hnan : x = Binary64.nan
  · subst hnan
    exact h.nan
  · obtain ⟨hlow, hhigh⟩ := (hg.not_saturated_iff hnan).mp hx
    exact h.inside x hlow hhigh

theorem AgreeWithin.clampedExp_eq (x : Binary64) :
    (L.withExp exp).clampedExp L.guards x = L.clampedExp L.guards x := by
  rcases L.clampedExp_cases L.guards x with ⟨hlow, ht⟩ | ⟨hhigh, ht⟩ | ⟨hx, ht⟩
  · rw [ht]
    exact clampedExp_of_lt hlow
  · rw [ht]
    exact clampedExp_of_gt hg hhigh
  · rw [ht, h.eq_of_not_saturated hg hx]
    exact clampedExp_of_not_saturated hx

theorem AgreeWithin.meanAt_eq (x : Binary64) : (L.withExp exp).meanAt x = L.meanAt x :=
  congrArg proportion (h.clampedExp_eq hg x)

theorem AgreeWithin.slopeAt_eq (x : Binary64) : (L.withExp exp).slopeAt x = L.slopeAt x := by
  by_cases hx : L.guards.Saturated x
  · rw [slopeAt_of_saturated hx]
    exact slopeAt_of_saturated hx
  · have hslope := slopeAt_withExp hx L.exp
    rw [slopeAt_withExp hx, ← h.eq_of_not_saturated hg hx]
    exact hslope.symm

theorem AgreeWithin.inverseLink_eq (eta : List Binary64) :
    (L.withExp exp).inverseLink eta = L.inverseLink eta := by
  unfold Logit.inverseLink
  rw [funext (h.meanAt_eq hg)]
  rfl

theorem AgreeWithin.meanDerivative_eq (eta : List Binary64) :
    (L.withExp exp).meanDerivative eta = L.meanDerivative eta := by
  unfold Logit.meanDerivative
  rw [funext (h.slopeAt_eq hg)]
  rfl

variable (x : Option (List Binary64)) (y weights : List Binary64)

/-- An iteration evaluates the exponential for the slopes and for the means, and only there. -/
theorem AgreeWithin.update_eq (fit : Fit Binary64) :
    (L.withExp exp).update x y weights fit = L.update x y weights fit := by
  unfold Logit.update
  simp only [h.inverseLink_eq hg, h.meanDerivative_eq hg]
  rfl

theorem AgreeWithin.iterate_eq (count : Nat) (fit : Fit Binary64) :
    iterate ((L.withExp exp).update x y weights) count fit =
      iterate (L.update x y weights) count fit := by
  induction count generalizing fit with
  | zero => rfl
  | succ count ih =>
    rw [iterate, iterate, h.update_eq hg]
    simp only [ih]

theorem AgreeWithin.scoring_eq (count : Nat) :
    (L.withExp exp).scoring x y weights count = L.scoring x y weights count := by
  have hstart : (L.withExp exp).start y weights = L.start y weights := rfl
  unfold Logit.scoring
  rw [hstart]
  simp only [h.iterate_eq hg]

end Confined

/-- Between guards that are accepted, exponentials that agree up to the threshold and at NaN give
the same answers with the same records. -/
theorem answers_of_agreeWithin {L : Logit Binary64} {threshold floor : Binary64}
    (hg : Guards.ofBounds threshold floor = .ok L.guards) {exp : Binary64 → Binary64}
    (h : AgreeWithin threshold L.exp exp) :
    (∀ eta, (L.withExp exp).inverseLink eta = L.inverseLink eta) ∧
    (∀ eta, (L.withExp exp).meanDerivative eta = L.meanDerivative eta) ∧
    ∀ x y weights count,
      (L.withExp exp).scoring x y weights count = L.scoring x y weights count := by
  obtain ⟨hguards, hadm⟩ := Guards.ofBounds_eq_ok_iff.mp hg
  have hthreshold : L.guards.threshold = threshold := congrArg Guards.threshold hguards
  rw [← hthreshold] at h
  exact ⟨h.inverseLink_eq hadm, h.meanDerivative_eq hadm, h.scoring_eq hadm⟩

def Elementary.truncatedExp (x : Binary64) : Binary64 :=
  if 1 < x then 0 else Elementary.steppedPropagating.exp x

theorem agreeWithin_truncatedExp : AgreeWithin 1 Logit.narrow.exp Elementary.truncatedExp := by
  constructor
  case inside =>
    intro x _ hhigh
    have hle : ¬1 < x := fun hlt => Binary64.not_le_of_lt hlt hhigh
    exact (if_neg hle).symm
  case nan => decide +kernel

/-- The exponentials differ at two, which is a predictor here. -/
theorem answers_of_agreeWithin_narrow :
    Guards.ofBounds 1 0.25 = .ok Logit.narrow.guards ∧
      AgreeWithin 1 Logit.narrow.exp Elementary.truncatedExp ∧
      Logit.narrow.exp 2 ≠ Elementary.truncatedExp 2 ∧
      (Logit.narrow.withExp Elementary.truncatedExp).inverseLink [1, 2, nan] =
        Logit.narrow.inverseLink [1, 2, nan] ∧
      (Logit.narrow.withExp Elementary.truncatedExp).meanDerivative [1, 2, nan] =
        Logit.narrow.meanDerivative [1, 2, nan] ∧
      (Logit.narrow.withExp Elementary.truncatedExp).scoring (some [1, 4]) [0.25, 0.75] [1, 2] 3 =
        Logit.narrow.scoring (some [1, 4]) [0.25, 0.75] [1, 2] 3 := by
  obtain ⟨hmeans, hslopes, hruns⟩ :=
    answers_of_agreeWithin admissible_narrow agreeWithin_truncatedExp
  exact ⟨admissible_narrow, agreeWithin_truncatedExp, by decide +kernel, hmeans _, hslopes _,
    hruns _ _ _ _⟩

end BinomialLogit
