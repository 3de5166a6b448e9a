import BinomialLogit.Program
import BinomialLogit.Proofs.Recycling.Positions

/-! A single element that serves for all observations against copies of it, one for each. The
lengths are accepted or refused alike and every observation is given the same elements, so that the
operations cannot tell the two apart. -/

namespace BinomialLogit
set_option autoImplicit false
universe u

/-- The same vector, or copies of its single element for `n` observations. -/
inductive Expands {F : Type u} (n : Nat) : List F → List F → Prop
  | kept (xs : List F) : Expands n xs xs
  | copied (x : F) : Expands n [x] (List.replicate n x)

namespace Expands
variable {F : Type u} {n : Nat} {xs xs' : List F}

theorem fits_iff (h : Expands n xs xs') : Fits n xs' ↔ Fits n xs := by
  cases h with
  | kept => exact Iff.rfl
  | copied x =>
    constructor
    · intro _
      exact .inr rfl
    · intro _
      exact .inl List.length_replicate

/-- A vector of a wrong length is not expanded, so it is refused with its own length. -/
theorem requireLength_eq (h : Expands n xs xs') (arg : String) :
    (requireLength arg xs'.length n : Except (Fault F) PUnit) =
      requireLength arg xs.length n := by
  by_cases hfits : Fits n xs
  · rw [requireLength_of_fits hfits, requireLength_of_fits (h.fits_iff.mpr hfits)]
  · cases h with
    | kept => rfl
    | copied x => exact absurd (.inr rfl) hfits

theorem expand_eq (h : Expands n xs xs') : expand n xs' = expand n xs := by
  cases h with
  | kept => rfl
  | copied x =>
    rcases n with _ | _ | n
    · rfl
    · rfl
    · rfl

theorem mem_iff (h : Expands n xs xs') (hn : 0 < n) {x : F} : x ∈ xs' ↔ x ∈ xs := by
  cases h with
  | kept => exact Iff.rfl
  | copied y =>
    rw [List.mem_replicate, List.mem_singleton]
    constructor
    · intro hx
      exact hx.2
    · intro hx
      exact ⟨Nat.ne_of_gt hn, hx⟩

end Expands

section Answers
variable {y trials trials' mu mu' weights weights' : List Binary64}

theorem Elementary.devianceResiduals_expands (fns : Elementary Binary64)
    (hmu : Expands y.length mu mu') (hweights : Expands y.length weights weights') :
    fns.devianceResiduals y mu' weights' = fns.devianceResiduals y mu weights := by
  have hchecks : devianceChecks y mu' weights' = devianceChecks y mu weights := by
    unfold devianceChecks
    rw [hmu.requireLength_eq, hweights.requireLength_eq]
  rw [fns.devianceResiduals_eq, fns.devianceResiduals_eq, hchecks, hmu.expand_eq,
    hweights.expand_eq]

theorem startingMeans_expands (hweights : Expands y.length weights weights') :
    startingMeans y weights' = startingMeans y weights := by
  have hchecks : startingChecks y weights' = startingChecks y weights := by
    unfold startingChecks
    rw [hweights.requireLength_eq]
  rw [startingMeans_eq, startingMeans_eq, hchecks, hweights.expand_eq]

/-- The one question asked of the vector of trials as a whole has the same answer, unless there is
no observation to use it for. -/
theorem givesTrials_expands (htrials : Expands y.length trials trials') (hy : y ≠ []) :
    GivesTrials trials' ↔ GivesTrials trials := by
  have hpos : 0 < y.length := List.length_pos_iff.mpr hy
  unfold GivesTrials
  simp only [htrials.mem_iff hpos]

theorem rowsOf_expands (htrials : Expands y.length trials trials') (hmu : Expands y.length mu mu')
    (hweights : Expands y.length weights weights') :
    rowsOf y trials' mu' weights' = rowsOf y trials mu weights := by
  by_cases hy : y = []
  · subst hy
    rfl
  · have hsizes : expand y.length (sizes trials' weights') =
        expand y.length (sizes trials weights) := by
      unfold sizes
      rw [apply_ite (expand y.length), apply_ite (expand y.length), htrials.expand_eq,
        hweights.expand_eq]
      simp only [givesTrials_expands htrials hy]
    unfold rowsOf
    rw [hsizes, hmu.expand_eq, hweights.expand_eq]

theorem Elementary.aic_expands (fns : Elementary Binary64)
    (htrials : Expands y.length trials trials') (hmu : Expands y.length mu mu')
    (hweights : Expands y.length weights weights') :
    fns.aic y trials' mu' weights' = fns.aic y trials mu weights := by
  have hchecks : aicChecks y trials' mu' weights' = aicChecks y trials mu weights := by
    unfold aicChecks
    rw [htrials.requireLength_eq, hmu.requireLength_eq, hweights.requireLength_eq]
  rw [fns.aic_eq, fns.aic_eq, hchecks, rowsOf_expands htrials hmu hweights]

/-- Complete answers, records included, are alike, and so are the runs of the loops that read the
vectors by position. -/
structure SameAnswers (L : Logit Binary64)
    (y trials mu weights trials' mu' weights' : List Binary64) : Prop where
  deviance : (Call.devianceResiduals y mu' weights').answer L =
    (Call.devianceResiduals y mu weights).answer L
  starting : (Call.startingMeans y weights').answer L = (Call.startingMeans y weights).answer L
  aic : (Call.aic y trials' mu' weights').answer L = (Call.aic y trials mu weights).answer L
  deviance_loop : L.devianceByPosition y mu' weights' = L.devianceByPosition y mu weights
  starting_loop : startingByPosition y weights' = startingByPosition y weights
  aic_loop : L.aicByPosition y trials' mu' weights' = L.aicByPosition y trials mu weights

/-- Copies of a single element, for any of the vectors that may have one, change no answer. -/
theorem sameAnswers_of_expands (L : Logit Binary64) (htrials : Expands y.length trials trials')
    (hmu : Expands y.length mu mu') (hweights : Expands y.length weights weights') :
    SameAnswers L y trials mu weights trials' mu' weights' := by
  have hdeviance := L.devianceResiduals_expands hmu hweights
  have hstarting := startingMeans_expands hweights
  have haic := L.aic_expands htrials hmu hweights
  constructor
  case deviance => simp only [Call.answer, hdeviance]
  case starting => simp only [Call.answer, hstarting]
  case aic => simp only [Call.answer, haic]
  case deviance_loop => rw [L.devianceByPosition_eq, L.devianceByPosition_eq, hdeviance]
  case starting_loop => rw [startingByPosition_eq, startingByPosition_eq, hstarting]
  case aic_loop => rw [L.aicByPosition_eq, L.aicByPosition_eq, haic]

theorem sameAnswers_two_observations :
    SameAnswers .standard [0, 1] [5] [0.5] [1, 2] [5, 5] [0.5, 0.5] [1, 2] :=
  sameAnswers_of_expands .standard (.copied 5) (.copied 0.5) (.kept [1, 2])

end Answers

end BinomialLogit
