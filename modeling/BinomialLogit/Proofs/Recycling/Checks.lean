import BinomialLogit.Deviance
import BinomialLogit.Likelihood.Aic
import BinomialLogit.StartingMeans

/-! The operations on several vectors, each split into the checks it makes first and the rows it
then works on. Everything that can be wrong with lengths and responses is found by the checks. -/

namespace BinomialLogit
set_option autoImplicit false
universe u

section Lengths
variable {F : Type u}

/-- One element for each of `n` observations, or a single one for all. -/
def Fits (n : Nat) (xs : List F) : Prop := xs.length = n ∨ xs.length = 1

instance (n : Nat) (xs : List F) : Decidable (Fits n xs) := inferInstanceAs (Decidable (_ ∨ _))

theorem requireLength_of_fits {arg : String} {n : Nat} {xs : List F} (h : Fits n xs) :
    (requireLength arg xs.length n : Except (Fault F) PUnit) = .ok ⟨⟩ := if_pos h

theorem requireLength_of_not_fits {arg : String} {n : Nat} {xs : List F} (h : ¬Fits n xs) :
    (requireLength arg xs.length n : Except (Fault F) PUnit) =
      .error (.lengthMismatch arg xs.length n) := if_neg h

theorem recycledAt?_eq_some {n i : Nat} {xs : List F} {x : F} (h : (expand n xs)[i]? = some x)
    (hi : i < n) : recycledAt? xs i = some x := by
  rw [← getElem?_expand hi]
  exact h

theorem recycledAt?_eq_getElem? {i : Nat} {xs : List F} (hi : i < xs.length) :
    recycledAt? xs i = xs[i]? := by
  unfold recycledAt?
  split
  · rename_i x
    have h0 : i = 0 := Nat.lt_one_iff.mp hi
    rw [h0]
    rfl
  · rfl

variable {y mu weights : List F}

def devianceChecks (y mu weights : List F) : Except (Fault F) PUnit.{u + 1} := do
  requireLength "mu" mu.length y.length
  requireLength "wt" weights.length y.length

theorem devianceChecks_eq_ok_iff :
    devianceChecks y mu weights = .ok ⟨⟩ ↔ Fits y.length mu ∧ Fits y.length weights := by
  unfold devianceChecks
  by_cases hmu : Fits y.length mu
  · rw [requireLength_of_fits hmu]
    exact requireLength_eq_ok_iff.trans ⟨fun h => ⟨hmu, h⟩, fun h => h.2⟩
  · rw [requireLength_of_not_fits hmu]
    exact ⟨nofun, fun h => absurd h.1 hmu⟩

theorem Elementary.devianceResiduals_eq [Add F] [Sub F] [Mul F] [Div F] [OfNat F 0] [OfNat F 1]
    [OfNat F 2] [LE F] [DecidableLE F] (fns : Elementary F) :
    fns.devianceResiduals y mu weights = (devianceChecks y mu weights).map fun _ =>
      (y.zip ((expand y.length mu).zip (expand y.length weights))).map
        fun (y, m, w) => fns.devianceAt y m w := by
  unfold devianceResiduals devianceChecks recycle
  cases requireLength "mu" mu.length y.length with
  | error e => rfl
  | ok _ =>
    cases requireLength "wt" weights.length y.length with
    | error e => rfl
    | ok _ => rfl

end Lengths

section Starting
variable {y weights : List Binary64}

def startingChecks (y weights : List Binary64) : Except (Fault Binary64) Unit := do
  requireLength "wt" weights.length y.length
  requireResponses y

theorem startingChecks_eq_ok_iff : startingChecks y weights = .ok ⟨⟩ ↔
    Fits y.length weights ∧ ∀ v ∈ y, 0 ≤ v ∧ v ≤ 1 := by
  unfold startingChecks
  by_cases hweights : Fits y.length weights
  · rw [requireLength_of_fits hweights]
    exact requireResponses_eq_ok_iff.trans ⟨fun h => ⟨hweights, h⟩, fun h => h.2⟩
  · rw [requireLength_of_not_fits hweights]
    exact ⟨nofun, fun h => absurd h.1 hweights⟩

def fractionalLog (fractional total : Nat) : List Record :=
  if 0 < fractional then [.fractional fractional total] else []

theorem startingMeans_eq : startingMeans y weights =
    match startingChecks y weights with
    | .error e => ⟨[], .error e⟩
    | .ok _ =>
      let rows := y.zip (expand y.length weights)
      ⟨fractionalLog (rows.countP fun (y, w) => IsFractional (w * y)) y.length,
        .ok (rows.map fun (y, w) => startingMeanAt y w)⟩ := by
  unfold startingMeans startingChecks recycle fractionalLog
  cases requireLength "wt" weights.length y.length with
  | error e => rfl
  | ok _ =>
    cases requireResponses y with
    | error e => rfl
    | ok _ =>
      change (if _ then _ else _ : Answer Binary64 (List Binary64)) = ⟨if _ then _ else _, _⟩
      split
      · rfl
      · rfl

end Starting

section Likelihood
variable {y trials mu weights : List Binary64}

def aicChecks (y trials mu weights : List Binary64) : Except (Fault Binary64) Unit := do
  requireLength "n" trials.length y.length
  requireLength "mu" mu.length y.length
  requireLength "wt" weights.length y.length
  requireResponses y

theorem aicChecks_eq_ok_iff : aicChecks y trials mu weights = .ok ⟨⟩ ↔
    (Fits y.length trials ∧ Fits y.length mu ∧ Fits y.length weights) ∧
      ∀ v ∈ y, 0 ≤ v ∧ v ≤ 1 := by
  unfold aicChecks
  by_cases htrials : Fits y.length trials
  · rw [requireLength_of_fits htrials]
    by_cases hmu : Fits y.length mu
    · rw [requireLength_of_fits hmu]
      by_cases hweights : Fits y.length weights
      · rw [requireLength_of_fits hweights]
        exact requireResponses_eq_ok_iff.trans
          ⟨fun h => ⟨⟨htrials, hmu, hweights⟩, h⟩, fun h => h.2⟩
      · rw [requireLength_of_not_fits hweights]
        exact ⟨nofun, fun h => absurd h.1.2.2 hweights⟩
    · rw [requireLength_of_not_fits hmu]
      exact ⟨nofun, fun h => absurd h.1.2.1 hmu⟩
  · rw [requireLength_of_not_fits htrials]
    exact ⟨nofun, fun h => absurd h.1.1 htrials⟩

def sizes (trials weights : List Binary64) : List Binary64 :=
  if GivesTrials trials then trials else weights

def rowsOf (y trials mu weights : List Binary64) : List Observation :=
  observations y (expand y.length (sizes trials weights)) (expand y.length mu)
    (expand y.length weights)

theorem getElem?_rowsOf {i : Nat} {o : Observation}
    (h : (rowsOf y trials mu weights)[i]? = some o) :
    y[i]? = some o.response ∧ recycledAt? (sizes trials weights) i = some o.size ∧
      recycledAt? mu i = some o.mean ∧ recycledAt? weights i = some o.weight := by
  unfold rowsOf observations at h
  rw [List.getElem?_map, Option.map_eq_some_iff] at h
  obtain ⟨⟨v, s, m, w⟩, hrow, rfl⟩ := h
  obtain ⟨hv, hsmw⟩ := List.getElem?_zip_eq_some.mp hrow
  obtain ⟨hs, hmw⟩ := List.getElem?_zip_eq_some.mp hsmw
  obtain ⟨hm, hw⟩ := List.getElem?_zip_eq_some.mp hmw
  have hi : i < y.length := (List.getElem?_eq_some_iff.mp hv).1
  exact ⟨hv, recycledAt?_eq_some hs hi, recycledAt?_eq_some hm hi, recycledAt?_eq_some hw hi⟩

theorem length_rowsOf (htrials : Fits y.length trials) (hmu : Fits y.length mu)
    (hweights : Fits y.length weights) : (rowsOf y trials mu weights).length = y.length := by
  have hsizes : Fits y.length (sizes trials weights) := by
    unfold sizes
    split
    · exact htrials
    · exact hweights
  unfold rowsOf observations
  simp [length_expand hsizes, length_expand hmu, length_expand hweights]

theorem Elementary.aic_eq (fns : Elementary Binary64) :
    fns.aic y trials mu weights = do
      aicChecks y trials mu weights
      let likelihood ← logLikelihood fns (rowsOf y trials mu weights)
      return -2 * likelihood := by
  have hsizes : expand y.length (sizes trials weights) =
      if GivesTrials trials then expand y.length trials else expand y.length weights :=
    apply_ite (expand y.length) _ _ _
  unfold aic aicChecks recycle rowsOf
  rw [hsizes]
  cases requireLength "n" trials.length y.length with
  | error e => rfl
  | ok _ =>
    cases requireLength "mu" mu.length y.length with
    | error e => rfl
    | ok _ =>
      cases requireLength "wt" weights.length y.length with
      | error e => rfl
      | ok _ =>
        cases requireResponses y with
        | error e => rfl
        | ok _ => rfl

end Likelihood

end BinomialLogit
