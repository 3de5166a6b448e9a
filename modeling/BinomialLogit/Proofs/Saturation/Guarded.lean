import BinomialLogit.Proofs.Saturation.Proper
import BinomialLogit.Proofs.Saturation.Standard

/-! Guards of one's own. Their bounds are examined one by one, which does not yet keep the means
inside the unit interval: for that the reciprocal of the floor and every exponential that is still
evaluated have to be proper odds. -/

namespace BinomialLogit
set_option autoImplicit false
open Binary64

/-- Predictors get usable means and positive derivatives. -/
def Logit.KeepsRange (L : Logit Binary64) : Prop :=
  ∀ eta : List Binary64, eta ≠ [] → nan ∉ eta →
    ∃ mu slopes, (L.inverseLink eta).outcome = .ok mu ∧ mu.length = eta.length ∧ ValidMean mu ∧
      (L.meanDerivative eta).outcome = .ok slopes ∧ slopes.length = eta.length ∧
      ∀ s ∈ slopes, s.IsFinite ∧ 0 < s

namespace Guards.Admissible
variable {g : Guards Binary64}

theorem floor_proper (h : g.Admissible) : ProperOdds g.floor :=
  properOdds_of_lt_one h.2.2.1 h.2.2.2

theorem one_le_ceiling (h : g.Admissible) : 1 ≤ g.ceiling := by
  obtain ⟨hfin, hpos, hlt⟩ := interior_iff.mpr h.2.2
  have hround := rounds_div isFinite_one hfin hpos.ne'
  rw [value_one] at hround
  refine hround.ge isFinite_one ?_
  rw [value_one, le_div_iff₀ hpos]
  linarith

theorem ceiling_pos (h : g.Admissible) : 0 < g.ceiling :=
  Binary64.lt_of_lt_of_le (by decide +kernel) h.one_le_ceiling

end Guards.Admissible

namespace Logit
variable {L : Logit Binary64}

theorem keepsRange_iff_forall_predictor : L.KeepsRange ↔ ∀ x, x ≠ nan →
    Interior (L.meanAt x) ∧ (L.slopeAt x).IsFinite ∧ 0 < L.slopeAt x := by
  constructor
  · intro h x hx
    have hne : [x] ≠ [] := List.cons_ne_nil x []
    obtain ⟨mu, slopes, hmu, -, hvalid, hslopes, -, hpos⟩ :=
      h [x] hne (by simpa using Ne.symm hx)
    rw [inverseLink_of_ne_nil L hne] at hmu
    rw [meanDerivative_of_ne_nil L hne] at hslopes
    cases hmu
    cases hslopes
    exact ⟨interior_iff.mpr (hvalid _ (List.mem_singleton_self _)),
      hpos _ (List.mem_singleton_self _)⟩
  · intro h eta hne hnan
    refine ⟨eta.map L.meanAt, eta.map L.slopeAt, by rw [inverseLink_of_ne_nil L hne],
      List.length_map _, ?_, by rw [meanDerivative_of_ne_nil L hne], List.length_map _, ?_⟩
    · rw [validMean_iff]
      intro m hm
      obtain ⟨x, hx, rfl⟩ := List.mem_map.mp hm
      exact (h x (ne_of_mem_of_not_mem hx hnan)).1
    · intro s hs
      obtain ⟨x, hx, rfl⟩ := List.mem_map.mp hs
      exact (h x (ne_of_mem_of_not_mem hx hnan)).2

theorem slopeAt_pos (hg : L.guards.Admissible) {x : Binary64}
    (hx : ¬L.guards.Saturated x → ProperOdds (L.exp x)) :
    (L.slopeAt x).IsFinite ∧ 0 < L.slopeAt x := by
  unfold slopeAt
  split
  · exact ⟨hg.2.1, hg.2.2.1⟩
  · rename_i hsat
    obtain ⟨hfin, hpos⟩ := (hx hsat).slope_pos
    exact ⟨hfin, hfin.pos_iff.mpr hpos⟩

/-- What guards that are accepted still have to satisfy: adding one changes their ceiling, and it
changes the exponential, which is positive, up to the threshold. -/
theorem keepsRange_iff {threshold floor : Binary64}
    (hg : Guards.ofBounds threshold floor = .ok L.guards) :
    L.KeepsRange ↔ L.guards.ceiling < 1 + L.guards.ceiling ∧
      ∀ x, -threshold ≤ x → x ≤ threshold → 0 < L.exp x ∧ L.exp x < 1 + L.exp x := by
  obtain ⟨hguards, hadm⟩ := Guards.ofBounds_eq_ok_iff.mp hg
  have hthreshold : L.guards.threshold = threshold := by rw [hguards]
  rw [keepsRange_iff_forall_predictor]
  constructor
  · intro h
    constructor
    · have hmean := (h (.infinity false) nofun).1
      have hbeyond := hadm.1.1.lt_infinity
      have hnot := Binary64.not_le_of_lt (isFinite_neg hadm.1.1).lt_infinity
      rcases L.clampedExp_cases L.guards (.infinity false) with ⟨hlt, -⟩ | ⟨-, ht⟩ | ⟨hsat, -⟩
      · exact absurd (Binary64.le_of_lt hlt) hnot
      · rw [meanAt, ht, interior_proportion_iff] at hmean
        exact hmean.2
      · exact absurd (.inl hbeyond) hsat
    · intro x hlow hhigh
      have hx := ne_nan_of_le_left hhigh
      have hsat := (hadm.not_saturated_iff hx).mpr (by rw [hthreshold]; exact ⟨hlow, hhigh⟩)
      have hmean := (h x hx).1
      rcases L.clampedExp_cases L.guards x with ⟨hlt, -⟩ | ⟨hlt, -⟩ | ⟨-, ht⟩
      · exact absurd (.inr hlt) hsat
      · exact absurd (.inl hlt) hsat
      · rw [meanAt, ht, interior_proportion_iff] at hmean
        exact hmean
  · intro h x hx
    obtain ⟨hceiling, hexp⟩ := h
    have hproper : ¬L.guards.Saturated x → ProperOdds (L.exp x) := by
      intro hsat
      obtain ⟨hlow, hhigh⟩ := (hadm.not_saturated_iff hx).mp hsat
      rw [hthreshold] at hlow hhigh
      exact hexp x hlow hhigh
    refine ⟨interior_proportion_iff.mpr ?_, slopeAt_pos hadm hproper⟩
    rcases L.clampedExp_cases L.guards x with ⟨-, ht⟩ | ⟨-, ht⟩ | ⟨hsat, ht⟩
    · exact ht ▸ hadm.floor_proper
    · exact ht ▸ ⟨hadm.ceiling_pos, hceiling⟩
    · exact ht ▸ hproper hsat

/-- Guards of one and one quarter, with an exponential that they keep in range. -/
theorem keepsRange_iff_quarter :
    let L : Logit Binary64 := { Elementary.tabulated with guards := ⟨1, 0.25⟩ }
    Guards.ofBounds 1 0.25 = .ok L.guards ∧
      (L.KeepsRange ↔ L.guards.ceiling < 1 + L.guards.ceiling ∧
        ∀ x : Binary64, -1 ≤ x → x ≤ 1 → 0 < L.exp x ∧ L.exp x < 1 + L.exp x) ∧
      L.KeepsRange := by
  intro L
  have hg : Guards.ofBounds 1 0.25 = .ok L.guards :=
    Guards.ofBounds_eq_ok_iff.mpr ⟨rfl, by decide +kernel⟩
  have hiff := keepsRange_iff hg
  refine ⟨hg, hiff, hiff.mpr ⟨by decide +kernel, ?_⟩⟩
  intro x _ _
  change (0 : Binary64) < 1 ∧ (1 : Binary64) < 1 + 1
  decide +kernel

/-- A floor of 1e-20 is accepted, and the mean beyond the threshold is one. -/
theorem inverseLink_leaves_range :
    Guards.ofBounds 1 1e-20 = .ok (guarded ⟨1, 1e-20⟩).guards ∧
      ((guarded ⟨1, 1e-20⟩).inverseLink [2]).outcome = .ok [1] ∧ ¬ValidMean [(1 : Binary64)] := by
  refine ⟨Guards.ofBounds_eq_ok_iff.mpr ⟨rfl, by decide +kernel⟩, ?_, by decide +kernel⟩
  rw [inverseLink_of_ne_nil _ (List.cons_ne_nil _ _)]
  have hmean : (guarded ⟨1, 1e-20⟩).meanAt 2 = 1 := by decide +kernel
  rw [List.map_cons, hmean, List.map_nil]

end Logit

end BinomialLogit
