import BinomialLogit.Proofs.Recycling.Positions
import BinomialLogit.Proofs.Traversal
import Mathlib.Data.Nat.Find

/-! When the operations on several vectors succeed and which fault they report otherwise. Lengths
come before responses and responses before means; of several bad elements the first is reported. -/

namespace BinomialLogit
set_option autoImplicit false

/-- In the closed unit interval. A NaN is not. -/
def InUnit (v : Binary64) : Prop := 0 ≤ v ∧ v ≤ 1

instance (v : Binary64) : Decidable (InUnit v) := inferInstanceAs (Decidable (_ ∧ _))

def FirstBadResponse (y : List Binary64) (i : Nat) (v : Binary64) : Prop :=
  y[i]? = some v ∧ ¬InUnit v ∧ ∀ j u, j < i → y[j]? = some u → InUnit u

/-- The observation has trials, and its mean is no probability. -/
def RejectsMean (trials mu weights : List Binary64) (i : Nat) (m : Binary64) : Prop :=
  recycledAt? mu i = some m ∧ ¬InUnit m ∧
    ∃ size, recycledAt? (sizes trials weights) i = some size ∧ 0 < size

def FirstRejectedMean (n : Nat) (trials mu weights : List Binary64) (i : Nat) (m : Binary64) :
    Prop :=
  i < n ∧ RejectsMean trials mu weights i m ∧ ∀ j u, j < i → ¬RejectsMean trials mu weights j u

theorem exists_firstBadResponse {y : List Binary64} (h : ¬∀ v ∈ y, InUnit v) :
    ∃ i v, FirstBadResponse y i v ∧
      (requireResponses y : Except (Fault Binary64) Unit) = .error (.responseOutside i v) := by
  unfold requireResponses
  split
  · rename_i v i hfind
    obtain ⟨hbad, k, hlength, hget, hbefore⟩ := List.find?_eq_some_iff_getElem.mp hfind
    rw [List.getElem_zipIdx, Nat.zero_add] at hget
    cases hget
    have hk : i < y.length := by rwa [List.length_zipIdx] at hlength
    refine ⟨i, y[i], ⟨List.getElem?_eq_getElem hk, of_decide_eq_true hbad, ?_⟩, rfl⟩
    intro j u hj hu
    have hprev := hbefore j hj
    rw [List.getElem_zipIdx] at hprev
    obtain ⟨hlt, rfl⟩ := List.getElem?_eq_some_iff.mp hu
    unfold InUnit
    simpa using hprev
  · rename_i hfind
    have hok : (requireResponses y : Except (Fault Binary64) Unit) = .ok ⟨⟩ := by
      unfold requireResponses
      rw [hfind]
    exact absurd (requireResponses_eq_ok_iff.mp hok) h

section Likelihood
variable (fns : Elementary Binary64) {rows : List Observation}

def contributing (rows : List Observation) : List (Observation × Nat) :=
  rows.zipIdx.filter fun (row : Observation × Nat) => row.1.Contributes

def termOf? (fns : Elementary Binary64) (row : Observation × Nat) :
    Except (Fault Binary64) Binary64 :=
  row.1.term? fns row.2

theorem logLikelihood_eq : logLikelihood fns rows =
    ((contributing rows).mapM (termOf? fns)).map total := rfl

theorem logLikelihood_eq_ok (h : ∀ o ∈ rows, o.Contributes → InUnit o.mean) :
    logLikelihood fns rows =
      .ok (total ((rows.filter fun o => o.Contributes).map fun o => o.term fns)) := by
  have hterms : (contributing rows).mapM (termOf? fns) =
      .ok ((contributing rows).map fun row => row.1.term fns) := by
    apply mapM_eq_ok_map
    intro row hmem
    obtain ⟨o, i⟩ := row
    obtain ⟨hrow, hcontributes⟩ := List.mem_filter.mp hmem
    exact if_pos (h o (List.fst_mem_of_mem_zipIdx hrow) (of_decide_eq_true hcontributes))
  have hfst : (contributing rows).map (fun row => row.1.term fns) =
      (rows.filter fun o => o.Contributes).map fun o => o.term fns := by
    conv_rhs => rw [← List.zipIdx_map_fst 0 rows, List.filter_map, List.map_map]
    rfl
  rw [logLikelihood_eq, hterms, hfst]
  rfl

theorem logLikelihood_eq_error {i : Nat} {o : Observation} (ho : rows[i]? = some o)
    (hcontributes : o.Contributes) (hbad : ¬InUnit o.mean)
    (hfirst : ∀ j o', j < i → rows[j]? = some o' → o'.Contributes → InUnit o'.mean) :
    logLikelihood fns rows = .error (.meanOutside i o.mean) := by
  obtain ⟨hi, rfl⟩ := List.getElem?_eq_some_iff.mp ho
  have hsplit : rows.zipIdx = rows.zipIdx.take i ++ (rows[i], i) :: rows.zipIdx.drop (i + 1) := by
    have hi' : i < rows.zipIdx.length := by rwa [List.length_zipIdx]
    conv_lhs => rw [← List.take_append_drop i rows.zipIdx, List.drop_eq_getElem_cons hi',
      List.getElem_zipIdx, Nat.zero_add]
  have hterms : (contributing rows).mapM (termOf? fns) =
      .error (.meanOutside i rows[i].mean) := by
    rw [contributing, hsplit, List.filter_append,
      List.filter_cons_of_pos (by simpa using hcontributes)]
    apply mapM_eq_error
    · intro row hmem
      obtain ⟨o, j⟩ := row
      obtain ⟨hrow, hcontributes⟩ := List.mem_filter.mp hmem
      obtain ⟨k, hk, hget⟩ := List.mem_take_iff_getElem.mp hrow
      rw [List.getElem_zipIdx, Nat.zero_add] at hget
      cases hget
      have hunit := hfirst j rows[j] (by omega) (List.getElem?_eq_getElem (by simp at hk; omega))
        (of_decide_eq_true hcontributes)
      exact ⟨_, if_pos hunit⟩
    · exact if_neg hbad
  rw [logLikelihood_eq, hterms]
  rfl

end Likelihood

/-- When deviance residuals are computed and what is reported otherwise. -/
structure DevianceOutcome (outcome : Except (Fault Binary64) (List Binary64))
    (y mu weights : List Binary64) : Prop where
  ok_iff : (∃ residuals, outcome = .ok residuals) ↔ Fits y.length mu ∧ Fits y.length weights
  length : ∀ residuals, outcome = .ok residuals → residuals.length = y.length
  mu_length : ¬Fits y.length mu → outcome = .error (.lengthMismatch "mu" mu.length y.length)
  weights_length : Fits y.length mu → ¬Fits y.length weights →
    outcome = .error (.lengthMismatch "wt" weights.length y.length)

structure StartingOutcome (outcome : Except (Fault Binary64) (List Binary64))
    (y weights : List Binary64) : Prop where
  ok_iff : (∃ means, outcome = .ok means) ↔ Fits y.length weights ∧ ∀ v ∈ y, InUnit v
  length : ∀ means, outcome = .ok means → means.length = y.length
  weights_length : ¬Fits y.length weights →
    outcome = .error (.lengthMismatch "wt" weights.length y.length)
  response : Fits y.length weights → ¬(∀ v ∈ y, InUnit v) →
    ∃ i v, FirstBadResponse y i v ∧ outcome = .error (.responseOutside i v)

structure AicOutcome (outcome : Except (Fault Binary64) Binary64)
    (y trials mu weights : List Binary64) : Prop where
  ok_iff : (∃ value, outcome = .ok value) ↔
    (Fits y.length trials ∧ Fits y.length mu ∧ Fits y.length weights) ∧ (∀ v ∈ y, InUnit v) ∧
      ∀ i m, i < y.length → ¬RejectsMean trials mu weights i m
  trials_length : ¬Fits y.length trials →
    outcome = .error (.lengthMismatch "n" trials.length y.length)
  mu_length : Fits y.length trials → ¬Fits y.length mu →
    outcome = .error (.lengthMismatch "mu" mu.length y.length)
  weights_length : Fits y.length trials → Fits y.length mu → ¬Fits y.length weights →
    outcome = .error (.lengthMismatch "wt" weights.length y.length)
  response : Fits y.length trials → Fits y.length mu → Fits y.length weights →
    ¬(∀ v ∈ y, InUnit v) →
      ∃ i v, FirstBadResponse y i v ∧ outcome = .error (.responseOutside i v)
  mean : Fits y.length trials → Fits y.length mu → Fits y.length weights →
    (∀ v ∈ y, InUnit v) → (∃ i m, i < y.length ∧ RejectsMean trials mu weights i m) →
      ∃ i m, FirstRejectedMean y.length trials mu weights i m ∧
        outcome = .error (.meanOutside i m)

section Outcomes
variable {y trials mu weights : List Binary64}

theorem devianceOutcome (fns : Elementary Binary64) :
    DevianceOutcome (fns.devianceResiduals y mu weights) y mu weights := by
  rw [fns.devianceResiduals_eq]
  constructor
  case mu_length =>
    intro hmu
    unfold devianceChecks
    rw [requireLength_of_not_fits hmu]
    rfl
  case weights_length =>
    intro hmu hweights
    unfold devianceChecks
    rw [requireLength_of_fits hmu, requireLength_of_not_fits hweights]
    rfl
  case ok_iff =>
    rw [← devianceChecks_eq_ok_iff]
    cases devianceChecks y mu weights with
    | error e => exact ⟨nofun, nofun⟩
    | ok _ => exact ⟨fun _ => rfl, fun _ => ⟨_, rfl⟩⟩
  case length =>
    intro residuals hok
    cases hchecks : devianceChecks y mu weights with
    | error e =>
      rw [hchecks] at hok
      cases hok
    | ok _ =>
      obtain ⟨hmu, hweights⟩ := devianceChecks_eq_ok_iff.mp hchecks
      rw [hchecks] at hok
      cases hok
      simp [length_expand hmu, length_expand hweights]

theorem startingOutcome : StartingOutcome (startingMeans y weights).outcome y weights := by
  rw [startingMeans_eq]
  constructor
  case weights_length =>
    intro hweights
    unfold startingChecks
    rw [requireLength_of_not_fits hweights]
    rfl
  case response =>
    intro hweights hy
    obtain ⟨i, v, hfirst, hfault⟩ := exists_firstBadResponse hy
    refine ⟨i, v, hfirst, ?_⟩
    unfold startingChecks
    rw [requireLength_of_fits hweights, hfault]
    rfl
  case ok_iff =>
    unfold InUnit
    rw [← startingChecks_eq_ok_iff]
    cases startingChecks y weights with
    | error e => exact ⟨nofun, nofun⟩
    | ok _ => exact ⟨fun _ => rfl, fun _ => ⟨_, rfl⟩⟩
  case length =>
    intro means hok
    cases hchecks : startingChecks y weights with
    | error e =>
      rw [hchecks] at hok
      cases hok
    | ok _ =>
      obtain ⟨hweights, -⟩ := startingChecks_eq_ok_iff.mp hchecks
      rw [hchecks] at hok
      cases hok
      simp [length_expand hweights]

theorem rejectsMean_iff {i : Nat} {o : Observation}
    (h : (rowsOf y trials mu weights)[i]? = some o) {m : Binary64} :
    RejectsMean trials mu weights i m ↔ o.mean = m ∧ o.Contributes ∧ ¬InUnit o.mean := by
  obtain ⟨-, hs, hm, -⟩ := getElem?_rowsOf h
  unfold RejectsMean
  rw [hs, hm]
  constructor
  · intro hrejects
    obtain ⟨⟨⟩, hbad, size, ⟨⟩, hpos⟩ := hrejects
    exact ⟨rfl, hpos, hbad⟩
  · intro hrow
    obtain ⟨rfl, hpos, hbad⟩ := hrow
    exact ⟨rfl, hbad, o.size, rfl, hpos⟩

theorem exists_firstRejectedMean {n : Nat}
    (h : ∃ i m, i < n ∧ RejectsMean trials mu weights i m) :
    ∃ i m, FirstRejectedMean n trials mu weights i m := by
  classical
  have hex : ∃ i, i < n ∧ ∃ m, RejectsMean trials mu weights i m := by
    obtain ⟨i, m, hi, hm⟩ := h
    exact ⟨i, hi, m, hm⟩
  obtain ⟨hi, m, hm⟩ := Nat.find_spec hex
  refine ⟨Nat.find hex, m, hi, hm, ?_⟩
  intro j u hj hu
  exact Nat.find_min hex hj ⟨Nat.lt_trans hj hi, u, hu⟩

section Checked
variable (htrials : Fits y.length trials) (hmu : Fits y.length mu)
  (hweights : Fits y.length weights)
include htrials hmu hweights

theorem getElem?_rowsOf_of_lt {i : Nat} (hi : i < y.length) :
    ∃ o, (rowsOf y trials mu weights)[i]? = some o :=
  ⟨_, List.getElem?_eq_getElem (by rwa [length_rowsOf htrials hmu hweights])⟩

theorem inUnit_of_not_rejects (h : ∀ i m, i < y.length → ¬RejectsMean trials mu weights i m) :
    ∀ o ∈ rowsOf y trials mu weights, o.Contributes → InUnit o.mean := by
  intro o ho hcontributes
  obtain ⟨i, hi⟩ := List.mem_iff_getElem?.mp ho
  have hlt : i < y.length := by
    rw [← length_rowsOf htrials hmu hweights]
    exact (List.getElem?_eq_some_iff.mp hi).1
  by_contra hbad
  exact h i o.mean hlt ((rejectsMean_iff hi).mpr ⟨rfl, hcontributes, hbad⟩)

theorem logLikelihood_rowsOf_ok (fns : Elementary Binary64)
    (h : ∀ i m, i < y.length → ¬RejectsMean trials mu weights i m) :
    ∃ value, logLikelihood fns (rowsOf y trials mu weights) = .ok value :=
  ⟨_, logLikelihood_eq_ok fns (inUnit_of_not_rejects htrials hmu hweights h)⟩

theorem logLikelihood_rowsOf_error (fns : Elementary Binary64) {i : Nat} {m : Binary64}
    (h : FirstRejectedMean y.length trials mu weights i m) :
    logLikelihood fns (rowsOf y trials mu weights) = .error (.meanOutside i m) := by
  obtain ⟨hi, hrejects, hfirst⟩ := h
  obtain ⟨o, ho⟩ := getElem?_rowsOf_of_lt htrials hmu hweights hi
  obtain ⟨rfl, hcontributes, hbad⟩ := (rejectsMean_iff ho).mp hrejects
  apply logLikelihood_eq_error fns ho hcontributes hbad
  intro j o' hj ho' hcontributes'
  by_contra hbad'
  exact hfirst j o'.mean hj ((rejectsMean_iff ho').mpr ⟨rfl, hcontributes', hbad'⟩)

end Checked

theorem aicOutcome (fns : Elementary Binary64) :
    AicOutcome (fns.aic y trials mu weights) y trials mu weights := by
  rw [fns.aic_eq]
  constructor
  case trials_length =>
    intro htrials
    unfold aicChecks
    rw [requireLength_of_not_fits htrials]
    rfl
  case mu_length =>
    intro htrials hmu
    unfold aicChecks
    rw [requireLength_of_fits htrials, requireLength_of_not_fits hmu]
    rfl
  case weights_length =>
    intro htrials hmu hweights
    unfold aicChecks
    rw [requireLength_of_fits htrials, requireLength_of_fits hmu,
      requireLength_of_not_fits hweights]
    rfl
  case response =>
    intro htrials hmu hweights hy
    obtain ⟨i, v, hfirst, hfault⟩ := exists_firstBadResponse hy
    refine ⟨i, v, hfirst, ?_⟩
    unfold aicChecks
    rw [requireLength_of_fits htrials, requireLength_of_fits hmu, requireLength_of_fits hweights,
      hfault]
    rfl
  case mean =>
    intro htrials hmu hweights hy hrejects
    obtain ⟨i, m, hfirst⟩ := exists_firstRejectedMean hrejects
    refine ⟨i, m, hfirst, ?_⟩
    rw [aicChecks_eq_ok_iff.mpr ⟨⟨htrials, hmu, hweights⟩, hy⟩,
      logLikelihood_rowsOf_error htrials hmu hweights fns hfirst]
    rfl
  case ok_iff =>
    rw [← and_assoc]
    unfold InUnit
    rw [← aicChecks_eq_ok_iff]
    cases hchecks : aicChecks y trials mu weights with
    | error e => exact ⟨nofun, nofun⟩
    | ok _ =>
      obtain ⟨⟨htrials, hmu, hweights⟩, -⟩ := aicChecks_eq_ok_iff.mp hchecks
      constructor
      · intro hok
        refine ⟨rfl, ?_⟩
        intro i m hi hrejects
        obtain ⟨j, u, hfirst⟩ := exists_firstRejectedMean ⟨i, m, hi, hrejects⟩
        rw [logLikelihood_rowsOf_error htrials hmu hweights fns hfirst] at hok
        obtain ⟨value, ⟨⟩⟩ := hok
      · intro h
        obtain ⟨-, hnone⟩ := h
        obtain ⟨value, hvalue⟩ := logLikelihood_rowsOf_ok htrials hmu hweights fns hnone
        rw [hvalue]
        exact ⟨_, rfl⟩

/-- The operations fail as documented and in the documented order, and none of them reads past the
end of a vector. -/
theorem faults_documented (fns : Elementary Binary64) (y trials mu weights : List Binary64) :
    DevianceOutcome (fns.devianceResiduals y mu weights) y mu weights ∧
      StartingOutcome (startingMeans y weights).outcome y weights ∧
      AicOutcome (fns.aic y trials mu weights) y trials mu weights ∧
      fns.devianceByPosition y mu weights = some (fns.devianceResiduals y mu weights) ∧
      startingByPosition y weights = some (startingMeans y weights) ∧
      fns.aicByPosition y trials mu weights = some (fns.aic y trials mu weights) :=
  ⟨devianceOutcome fns, startingOutcome, aicOutcome fns, fns.devianceByPosition_eq y mu weights,
    startingByPosition_eq y weights, fns.aicByPosition_eq y trials mu weights⟩

end Outcomes

end BinomialLogit
