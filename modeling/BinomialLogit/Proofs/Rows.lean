import BinomialLogit.Column.Coercion
import BinomialLogit.Logit
import BinomialLogit.Proofs.Recycling.Faults

/-! Operations as traversals of their rows, each row looked at alone. A fault that a row gives rise
to is reported with the position of the row. -/

namespace BinomialLogit
set_option autoImplicit false
universe u

theorem Logit.link_eq_ok {F : Type u} [Sub F] [Div F] [OfNat F 0] [OfNat F 1] [LT F]
    [DecidableLT F] (L : Logit F) {mu : List F} (hmu : mu ≠ [])
    (h : ∀ m ∈ mu, ¬(m < 0 ∨ 1 < m)) : L.link mu = .ok (mu.map fun m => L.ln (m / (1 - m))) := by
  have hrows : L.link mu = .ok (mu.zipIdx.map fun row => L.ln (row.1 / (1 - row.1))) := by
    rw [L.link_of_ne_nil hmu]
    apply mapM_eq_ok_map
    intro row hrow
    obtain ⟨m, i⟩ := row
    change (L.linkAt m).mapError _ = _
    rw [L.linkAt_eq_ok (h m (List.fst_mem_of_mem_zipIdx hrow))]
    rfl
  have hfst : mu.map (fun m => L.ln (m / (1 - m))) =
      mu.zipIdx.map fun row => L.ln (row.1 / (1 - row.1)) := by
    conv_lhs => rw [← List.zipIdx_map_fst 0 mu, List.map_map]
    rfl
  rw [hrows, hfst]

namespace Logit
variable (L : Logit Binary64) {m : Binary64}

/-- The predictor of a mean, or the mean that has none. -/
def predictorAt (L : Logit Binary64) (m : Binary64) : Except Binary64 Binary64 :=
  (L.linkAt m).mapError OutsideUnit.value

theorem predictorAt_eq_ok (h : ¬(m < 0 ∨ 1 < m)) : L.predictorAt m = .ok (L.ln (m / (1 - m))) := by
  unfold predictorAt
  rw [L.linkAt_eq_ok h]
  rfl

theorem predictorAt_eq_error (h : m < 0 ∨ 1 < m) : L.predictorAt m = .error m := by
  unfold predictorAt linkAt odds
  rw [if_pos h]
  rfl

theorem link_eq_mapLocated {mu : List Binary64} (h : mu ≠ []) :
    L.link mu = mapLocated .meanOutside L.predictorAt mu := by
  rw [L.link_of_ne_nil h]
  unfold mapLocated predictorAt
  congr 1
  funext row
  obtain ⟨m, i⟩ := row
  dsimp only
  cases L.linkAt m with
  | error e => rfl
  | ok x => rfl

end Logit

theorem expand_eq_self {F : Type u} {n : Nat} {xs : List F} (h : xs.length = n) :
    expand n xs = xs := by
  unfold expand
  split
  · rw [← h]
    rfl
  · rfl

section Starting
variable {y weights : List Binary64}

def startAt (row : Binary64 × Binary64) : Except Binary64 Binary64 :=
  if InUnit row.1 then .ok (startingMeanAt row.1 row.2) else .error row.1

def fractionalCount (rows : List (Binary64 × Binary64)) : Nat :=
  rows.countP fun (y, w) => IsFractional (w * y)

def meansAtStart (y weights : List Binary64) : List Binary64 :=
  (y.zip weights).map fun (v, w) => startingMeanAt v w

def startLog (y weights : List Binary64) : List Record :=
  fractionalLog (fractionalCount (y.zip weights)) y.length

section Full
variable (h : weights.length = y.length)
include h

theorem startingChecks_eq : startingChecks y weights = requireResponses y := by
  unfold startingChecks
  rw [requireLength_of_fits (.inl h)]
  rfl

theorem startingMeans_of_inUnit (hunit : ∀ v ∈ y, InUnit v) :
    startingMeans y weights = ⟨startLog y weights, .ok (meansAtStart y weights)⟩ := by
  rw [startingMeans_eq, startingChecks_eq h, requireResponses_eq_ok_iff.mpr hunit,
    expand_eq_self h]
  rfl

theorem exists_startingMeans_refused (hunit : ¬∀ v ∈ y, InUnit v) :
    ∃ i v, FirstBadResponse y i v ∧
      startingMeans y weights = ⟨[], .error (.responseOutside i v)⟩ := by
  obtain ⟨i, v, hbad, hfault⟩ := exists_firstBadResponse hunit
  refine ⟨i, v, hbad, ?_⟩
  rw [startingMeans_eq, startingChecks_eq h, hfault]

theorem startingMeans_rows :
    (startingMeans y weights).outcome = mapLocated .responseOutside startAt (y.zip weights) ∧
      ((∃ means, (startingMeans y weights).outcome = .ok means) →
        (startingMeans y weights).log =
          fractionalLog (fractionalCount (y.zip weights)) y.length) ∧
      ∀ e, (startingMeans y weights).outcome = .error e → (startingMeans y weights).log = [] := by
  by_cases hunit : ∀ v ∈ y, InUnit v
  · have hmeans : mapLocated Fault.responseOutside startAt (y.zip weights) =
        .ok (meansAtStart y weights) := by
      apply mapLocated_eq_ok_iff.mpr
      unfold meansAtStart
      rw [List.forall₂_map_right_iff, List.forall₂_same]
      intro row hrow
      exact if_pos (hunit row.1 (List.of_mem_zip hrow).1)
    rw [startingMeans_of_inUnit h hunit, hmeans]
    exact ⟨rfl, fun _ => rfl, nofun⟩
  · obtain ⟨i, v, hbad, hrefused⟩ := exists_startingMeans_refused h hunit
    obtain ⟨hv, houtside, hbefore⟩ := hbad
    have hi : i < weights.length := by
      rw [h]
      exact (List.getElem?_eq_some_iff.mp hv).1
    have hfirst : FirstError startAt (y.zip weights) i (v, weights[i]) v := by
      constructor
      case element =>
        exact List.getElem?_zip_eq_some.mpr ⟨hv, List.getElem?_eq_getElem hi⟩
      case error => exact if_neg houtside
      case before =>
        intro j row hj hrow
        exact ⟨_, if_pos (hbefore j row.1 hj (List.getElem?_zip_eq_some.mp hrow).1)⟩
    rw [hrefused, hfirst.mapLocated_eq]
    exact ⟨rfl, nofun, fun _ _ => rfl⟩

end Full

end Starting

namespace Column

def coercionLog (arg : String) (storage : Storage) (length : Nat) : List Record :=
  if storage ≠ .double then [.coercing arg storage length] else []

theorem coerce_eq (arg : String) (c : Column) :
    c.coerce arg = ⟨coercionLog arg c.storage c.length, c.values arg⟩ := by
  cases c with
  | double xs => rfl
  | integer xs => rfl
  | logical xs => rfl
  | character xs => rfl

theorem values_character (arg : String) (xs : List (Option String)) :
    (character xs).values arg = mapLocated (.unreadable arg) readCell xs := rfl

end Column

end BinomialLogit
