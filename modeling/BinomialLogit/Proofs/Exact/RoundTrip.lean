import BinomialLogit.Proofs.Exact.Odds
import BinomialLogit.Proofs.Rows
import Mathlib.Analysis.SpecialFunctions.Log.Basic

/-! The link and the inverse link over an exact ordered field, one after the other. Between the
thresholds each undoes the other; beyond them the inverse link gives the mean of its floor or of its
ceiling, and the link accepts these as well. -/

namespace BinomialLogit
set_option autoImplicit false
universe u
variable {F : Type u} [Field F] [LinearOrder F] [IsStrictOrderedRing F]

/-- The exponential and the logarithm are inverse to each other, with the positive numbers on the
side of the exponential. -/
structure Elementary.ExactInverse (fns : Elementary F) : Prop where
  exp_pos : ∀ x, 0 < fns.exp x
  ln_exp : ∀ x, fns.ln (fns.exp x) = x
  exp_ln : ∀ t, 0 < t → fns.exp (fns.ln t) = t

structure Guards.Proper (g : Guards F) : Prop where
  threshold_pos : 0 < g.threshold
  floor_pos : 0 < g.floor
  floor_lt_one : g.floor < 1

structure Guards.Restores (g : Guards F) (m e restored : F) : Prop where
  within : |e| ≤ g.threshold → restored = m
  below : e < -g.threshold → restored = g.floor / (1 + g.floor)
  above : g.threshold < e → restored = g.ceiling / (1 + g.ceiling)

namespace Guards
variable {g : Guards F} {e : F}

theorem not_saturated_iff_abs_le : ¬g.Saturated e ↔ |e| ≤ g.threshold := by
  rw [abs_le]
  unfold Saturated
  rw [not_or, not_lt, not_lt]
  exact and_comm

theorem Proper.ceiling_pos (h : g.Proper) : 0 < g.ceiling := one_div_pos.mpr h.floor_pos

end Guards

namespace Logit
variable {L : Logit F} {m e : F}

theorem clampedExp_pos (hinverse : L.ExactInverse) (hguards : L.guards.Proper) :
    0 < L.clampedExp L.guards e := by
  rcases L.clampedExp_cases L.guards e with ⟨-, ht⟩ | ⟨-, ht⟩ | ⟨-, ht⟩
  · exact ht ▸ hguards.floor_pos
  · exact ht ▸ hguards.ceiling_pos
  · exact ht ▸ hinverse.exp_pos e

/-- A mean inside the unit interval and what the two links make of it. -/
theorem restores_meanAt (hinverse : L.ExactInverse) (hguards : L.guards.Proper) (h0 : 0 < m)
    (h1 : m < 1) :
    L.guards.Restores m (L.ln (m / (1 - m))) (L.meanAt (L.ln (m / (1 - m)))) := by
  have hodds : 0 < m / (1 - m) := div_pos h0 (sub_pos.mpr h1)
  have hexp := hinverse.exp_ln _ hodds
  generalize L.ln (m / (1 - m)) = e at hexp ⊢
  constructor
  case within =>
    intro hle
    rw [L.meanAt_of_not_saturated (Guards.not_saturated_iff_abs_le.mpr hle), hexp,
      proportion_odds (sub_pos.mpr h1).ne']
  case below =>
    intro hlow
    unfold meanAt Elementary.clampedExp
    rw [if_pos hlow]
    rfl
  case above =>
    intro hhigh
    have hlow : ¬e < -L.guards.threshold := by
      have hpos := hguards.threshold_pos
      rw [not_lt]
      linarith
    unfold meanAt Elementary.clampedExp
    rw [if_neg hlow, if_pos hhigh]
    rfl

theorem predictor_meanAt (hinverse : L.ExactInverse) (h : ¬L.guards.Saturated e) :
    L.ln (L.meanAt e / (1 - L.meanAt e)) = e := by
  rw [L.meanAt_of_not_saturated h, odds_proportion (hinverse.exp_pos e), hinverse.ln_exp]

theorem validMean_map_meanAt (hinverse : L.ExactInverse) (hguards : L.guards.Proper)
    (eta : List F) : ValidMean (eta.map L.meanAt) := by
  intro m hm
  obtain ⟨e, -, rfl⟩ := List.mem_map.mp hm
  have hpos := clampedExp_pos (e := e) hinverse hguards
  exact ⟨proportion_pos hpos, proportion_lt_one hpos⟩

end Logit

omit [IsStrictOrderedRing F] in
theorem ValidMean.link_eq_ok {L : Logit F} {mu : List F} (h : ValidMean mu) (hmu : mu ≠ []) :
    L.link mu = .ok (mu.map fun m => L.ln (m / (1 - m))) := by
  apply L.link_eq_ok hmu
  intro m hm
  obtain ⟨h0, h1⟩ := h m hm
  exact not_or.mpr ⟨h0.not_gt, h1.not_gt⟩

structure RoundTrip (L : Logit F) : Prop where
  means : ∀ mu, mu ≠ [] → ValidMean mu → ∃ eta restored, L.link mu = .ok eta ∧
    (L.inverseLink eta).outcome = .ok restored ∧ eta.length = mu.length ∧
      restored.length = mu.length ∧ ∀ (i : Nat) m e r, mu[i]? = some m → eta[i]? = some e →
        restored[i]? = some r → L.guards.Restores m e r
  predictors : ∀ eta, eta ≠ [] → (∀ e ∈ eta, ¬L.guards.Saturated e) →
    ∃ mu, (L.inverseLink eta).outcome = .ok mu ∧ L.link mu = .ok eta
  /-- Saturated predictors have means that the link accepts, too. -/
  accepted : ∀ eta, eta ≠ [] → ∃ mu eta', (L.inverseLink eta).outcome = .ok mu ∧ ValidMean mu ∧
    L.link mu = .ok eta'

theorem link_roundTrip {L : Logit F} (hinverse : L.ExactInverse) (hguards : L.guards.Proper) :
    RoundTrip L := by
  constructor
  case means =>
    intro mu hmu hvalid
    refine ⟨_, _, hvalid.link_eq_ok hmu, by rw [L.inverseLink_of_ne_nil (by simpa using hmu)],
      by simp, by simp, ?_⟩
    intro i m e r hm he hr
    rw [List.getElem?_map, List.getElem?_map, hm] at hr
    rw [List.getElem?_map, hm] at he
    cases he
    cases hr
    obtain ⟨h0, h1⟩ := hvalid m (List.mem_of_getElem? hm)
    exact Logit.restores_meanAt hinverse hguards h0 h1
  case predictors =>
    intro eta heta hsaturated
    refine ⟨eta.map L.meanAt, by rw [L.inverseLink_of_ne_nil heta], ?_⟩
    rw [(Logit.validMean_map_meanAt hinverse hguards eta).link_eq_ok (by simpa using heta),
      List.map_map]
    have hback : eta.map ((fun m => L.ln (m / (1 - m))) ∘ L.meanAt) = eta.map id := by
      apply List.map_congr_left
      intro e he
      exact Logit.predictor_meanAt hinverse (hsaturated e he)
    rw [hback, List.map_id]
  case accepted =>
    intro eta heta
    have hvalid := Logit.validMean_map_meanAt hinverse hguards eta
    exact ⟨eta.map L.meanAt, _, by rw [L.inverseLink_of_ne_nil heta], hvalid,
      hvalid.link_eq_ok (by simpa using heta)⟩

noncomputable def Logit.real : Logit ℝ where
  exp := Real.exp
  ln := Real.log
  guards := ⟨30, 1 / 2 ^ 52⟩

theorem link_roundTrip_real :
    Logit.real.ExactInverse ∧ Logit.real.guards.Proper ∧ RoundTrip Logit.real := by
  have hinverse : Logit.real.ExactInverse := by
    constructor
    case exp_pos => exact Real.exp_pos
    case ln_exp => exact Real.log_exp
    case exp_ln =>
      intro t ht
      exact Real.exp_log ht
  have hguards : Logit.real.guards.Proper := by
    constructor
    case threshold_pos =>
      change (0 : ℝ) < 30
      norm_num
    case floor_pos =>
      change (0 : ℝ) < 1 / 2 ^ 52
      norm_num
    case floor_lt_one =>
      change (1 : ℝ) / 2 ^ 52 < 1
      norm_num
  exact ⟨hinverse, hguards, link_roundTrip hinverse hguards⟩

end BinomialLogit
