import BinomialLogit.Proofs.Elementary
import BinomialLogit.Proofs.Rows
import BinomialLogit.Proofs.Saturation.Standard
import BinomialLogit.Proofs.Starting.RoundsToOne

/-! The predictors of starting means. They are finite as long as the means stay below one; a mean
that rounding takes to one has an infinite predictor. -/

namespace BinomialLogit
set_option autoImplicit false
open Binary64

structure StartsAt (row start : Binary64 × Binary64) : Prop where
  interior : ¬RoundsToOne row.1.value row.2.value → Interior start.1 ∧ start.2.IsFinite
  rounded : RoundsToOne row.1.value row.2.value → start = (1, infinity false)

/-- What observations start from. Responses that are not next to one and weights below 2^52 are out
of danger. -/
structure Started (rows : List (Binary64 × Binary64)) (means etas : List Binary64) : Prop where
  length : means.length = rows.length ∧ etas.length = rows.length
  each : List.Forall₂ StartsAt rows (means.zip etas)
  valid_iff : ValidMean means ↔ ∀ row ∈ rows, ¬RoundsToOne row.1.value row.2.value
  finite_iff : (∀ e ∈ etas, e.IsFinite) ↔ ValidMean means
  moderate : (∀ row ∈ rows, row.1.value < 1 - 1 / 2 ^ 53 ∨ row.2.value < 2 ^ 52 - 1 / 2) →
    ValidMean means

/-- Where every observation starts as it should, the clauses about all of them follow. -/
theorem started_of_forall {rows : List (Binary64 × Binary64)}
    {m e : Binary64 × Binary64 → Binary64} (h : ∀ row ∈ rows, StartsAt row (m row, e row)) :
    Started rows (rows.map m) (rows.map e) := by
  have hvalid : ValidMean (rows.map m) ↔ ∀ row ∈ rows, ¬RoundsToOne row.1.value row.2.value := by
    rw [validMean_iff, List.forall_mem_map]
    refine forall₂_congr fun row hrow => ⟨?_, fun hround => ((h row hrow).interior hround).1⟩
    intro hinterior hround
    have hone : m row = 1 := congrArg Prod.fst ((h row hrow).rounded hround)
    have hlt := hinterior.lt_one
    rw [hone, value_one] at hlt
    exact lt_irrefl _ hlt
  constructor
  case length => exact ⟨List.length_map m, List.length_map e⟩
  case each =>
    rw [List.zip_map', List.forall₂_map_right_iff, List.forall₂_same]
    exact h
  case valid_iff => exact hvalid
  case finite_iff =>
    rw [hvalid, List.forall_mem_map]
    refine forall₂_congr fun row hrow => ⟨?_, fun hround => ((h row hrow).interior hround).2⟩
    intro hfinite hround
    have hinf : e row = infinity false := congrArg Prod.snd ((h row hrow).rounded hround)
    rw [hinf] at hfinite
    exact not_isFinite_infinity false hfinite
  case moderate =>
    intro hmoderate
    refine hvalid.mpr fun row hrow hround => ?_
    rcases hmoderate row hrow with hresponse | hweight
    · exact hresponse.not_ge hround.response_ge
    · exact hweight.not_ge hround.weight_ge

theorem startingMeans_outcome {y weights : List Binary64} (hfits : Fits y.length weights)
    (hunit : ∀ v ∈ y, InUnit v) : (startingMeans y weights).outcome =
      .ok ((y.zip (expand y.length weights)).map fun row => startingMeanAt row.1 row.2) := by
  rw [startingMeans_eq, startingChecks_eq_ok_iff.mpr ⟨hfits, hunit⟩]

section Link
variable {L : Logit Binary64} (hln : LnFinite L.ln) (hinf : L.ln (infinity false) = infinity false)
include hln hinf

theorem startsAt {v w : Binary64} (hv : InUnit v) (hw : w.IsFinite) (h0 : 0 ≤ w) :
    StartsAt (v, w) (startingMeanAt v w, L.ln (startingMeanAt v w / (1 - startingMeanAt v w))) := by
  constructor
  case interior =>
    intro hround
    have hmean := startingMeanAt_interior hv hw h0 hround
    obtain ⟨hfin, hpos, -⟩ := hmean.odds_pos
    exact ⟨hmean, hln _ hfin (hfin.pos_iff.mpr hpos)⟩
  case rounded =>
    intro hround
    have hodds : (1 : Binary64) / (1 - 1) = infinity false := by decide +kernel
    rw [startingMeanAt_eq_one hv hw h0 hround, hodds, hinf]

/-- Starting means are computed and accepted by the link, and they are usable except where rounding
takes them to one. -/
theorem startingMeans_predictors {y weights : List Binary64} (hy : y ≠ [])
    (hunit : ∀ v ∈ y, InUnit v) (hfits : Fits y.length weights)
    (hweights : ∀ w ∈ weights, w.IsFinite ∧ 0 ≤ w) :
    ∃ means etas, (startingMeans y weights).outcome = .ok means ∧ L.link means = .ok etas ∧
      Started (y.zip (expand y.length weights)) means etas := by
  have houtcome := startingMeans_outcome hfits hunit
  have hne : y.zip (expand y.length weights) ≠ [] := by
    apply List.ne_nil_of_length_pos
    rw [List.length_zip, length_expand hfits, Nat.min_self]
    exact List.length_pos_iff.mpr hy
  have hrows : ∀ row ∈ y.zip (expand y.length weights),
      InUnit row.1 ∧ row.2.IsFinite ∧ 0 ≤ row.2 := by
    intro row hrow
    obtain ⟨hv, hw⟩ := List.of_mem_zip hrow
    exact ⟨hunit row.1 hv, hweights row.2 (mem_of_mem_expand hw)⟩
  generalize y.zip (expand y.length weights) = rows at *
  have hinside : ∀ m ∈ rows.map fun row => startingMeanAt row.1 row.2, ¬(m < 0 ∨ 1 < m) := by
    rw [List.forall_mem_map]
    intro row hrow
    obtain ⟨hv, hw, h0⟩ := hrows row hrow
    exact not_beyond_of_inUnit (startingMeanAt_of_finite hv hw (hw.nonneg_iff.mp h0))
  have hlink := L.link_eq_ok (mt List.map_eq_nil_iff.mp hne) hinside
  rw [List.map_map] at hlink
  refine ⟨_, _, houtcome, hlink, started_of_forall ?_⟩
  intro row hrow
  obtain ⟨hv, hw, h0⟩ := hrows row hrow
  exact startsAt hln hinf hv hw h0

end Link

/-- Half a success in one trial and a success in every one of 2^52 + 1. -/
theorem startingMeans_predictors_half_and_one :
    ∃ means etas, (startingMeans [0.5, 1] [1, 4503599627370497]).outcome = .ok means ∧
      Elementary.extended.standardLogit.link means = .ok etas ∧
      Started [(0.5, 1), (1, 4503599627370497)] means etas :=
  have hfits : Fits 2 [1, (4503599627370497 : Binary64)] := .inl rfl
  startingMeans_predictors (L := Elementary.extended.standardLogit) (y := [0.5, 1])
    lnFinite_extended extended_ln_infinity (by decide) (by decide +kernel) hfits
    (by decide +kernel)

/-- A success in every one of 2^52 + 1 trials: the mean is not usable, and the link takes it to
infinity. -/
theorem startingMeans_reach_one :
    (startingMeans [1] [4503599627370497]).outcome = .ok [1] ∧ ¬ValidMean [(1 : Binary64)] ∧
      Elementary.extended.standardLogit.link [1] = .ok [infinity false] := by
  have hfits : Fits 1 [(4503599627370497 : Binary64)] := .inl rfl
  have hmean : startingMeanAt 1 4503599627370497 = 1 := by decide +kernel
  have heta : Elementary.extended.standardLogit.ln (1 / (1 - 1)) = infinity false := by
    decide +kernel
  refine ⟨?_, by decide +kernel, ?_⟩
  · rw [startingMeans_outcome (y := [1]) hfits (by decide +kernel)]
    exact congrArg (fun m => Except.ok [m]) hmean
  · rw [Logit.link_eq_ok _ (List.cons_ne_nil _ _) (by decide +kernel)]
    exact congrArg (fun e => Except.ok [e]) heta

end BinomialLogit
