import BinomialLogit.Proofs.Saturation.Clamped
import Mathlib.Data.Finset.Card

/-! Where the guards stand in for the exponential. The means, the derivatives and the counts on
record each come with a test of their own; all of them mark the same positions, at which no
exponential whatever makes a difference. Elsewhere the guards make none. -/

namespace BinomialLogit
set_option autoImplicit false
open Binary64

def Logit.withExp (L : Logit Binary64) (exp : Binary64 → Binary64) : Logit Binary64 :=
  { L with exp }

def Logit.withGuards (L : Logit Binary64) (guards : Guards Binary64) : Logit Binary64 :=
  { L with guards }

def Guards.saturatedPositions (g : Guards Binary64) (eta : List Binary64) : Finset Nat :=
  (Finset.range eta.length).filter fun i => ∃ x ∈ eta[i]?, g.Saturated x

/-- At position `i` the operation answers `v` in place of anything that an exponential gives. -/
def Substitutes (op : Logit Binary64 → List Binary64 → Answer Binary64 (List Binary64))
    (L : Logit Binary64) (eta : List Binary64) (i : Nat) (v : Binary64) : Prop :=
  ∀ exp, ∃ vs, (op (L.withExp exp) eta).outcome = .ok vs ∧ vs[i]? = some v

/-- What the three tests for saturation come to on a vector of predictors. -/
structure SaturationMarked (L : Logit Binary64) (eta : List Binary64) : Prop where
  below : ∀ i x, eta[i]? = some x → x < -L.guards.threshold →
    Substitutes Logit.inverseLink L eta i (proportion L.guards.floor)
  above : ∀ i x, eta[i]? = some x → L.guards.threshold < x →
    Substitutes Logit.inverseLink L eta i (proportion L.guards.ceiling)
  means : ∀ i, i ∈ L.guards.saturatedPositions eta ↔
    Substitutes Logit.inverseLink L eta i (proportion L.guards.floor) ∨
      Substitutes Logit.inverseLink L eta i (proportion L.guards.ceiling)
  slopes : ∀ i, i ∈ L.guards.saturatedPositions eta ↔
    Substitutes Logit.meanDerivative L eta i L.guards.floor
  meanLog : (L.inverseLink eta).log =
    [.saturated (L.guards.saturatedPositions eta).card eta.length]
  slopeLog : (L.meanDerivative eta).log =
    [.floored (L.guards.saturatedPositions eta).card eta.length]
  missing : ∀ i, eta[i]? = some nan → i ∉ L.guards.saturatedPositions eta ∧
    ∃ mu slopes, (L.inverseLink eta).outcome = .ok mu ∧ mu[i]? = some nan ∧
      (L.meanDerivative eta).outcome = .ok slopes ∧ slopes[i]? = some nan

/-- Answers with the same element wherever neither guards find a predictor saturated. -/
def AgreeUnsaturated (g g' : Guards Binary64) (eta : List Binary64)
    (answer answer' : Answer Binary64 (List Binary64)) : Prop :=
  ∀ (i : Nat) x, eta[i]? = some x → ¬g.Saturated x → ¬g'.Saturated x →
    ∃ vs vs' v, answer.outcome = .ok vs ∧ answer'.outcome = .ok vs' ∧
      vs[i]? = some v ∧ vs'[i]? = some v

section Positions
variable {g : Guards Binary64} {eta : List Binary64} {i : Nat}

theorem mem_saturatedPositions :
    i ∈ g.saturatedPositions eta ↔ ∃ x, eta[i]? = some x ∧ g.Saturated x := by
  unfold Guards.saturatedPositions
  simp only [Finset.mem_filter, Finset.mem_range, Option.mem_def]
  constructor
  · intro h
    exact h.2
  · rintro ⟨x, hx, hsat⟩
    exact ⟨(List.getElem?_eq_some_iff.mp hx).1, x, hx, hsat⟩

theorem length_not_mem_saturatedPositions : eta.length ∉ g.saturatedPositions eta := by
  intro h
  obtain ⟨x, hx, -⟩ := mem_saturatedPositions.mp h
  exact absurd (List.getElem?_eq_some_iff.mp hx).1 (Nat.lt_irrefl _)

theorem mem_saturatedPositions_concat {x : Binary64} : i ∈ g.saturatedPositions (eta ++ [x]) ↔
    i = eta.length ∧ g.Saturated x ∨ i ∈ g.saturatedPositions eta := by
  rw [mem_saturatedPositions, mem_saturatedPositions]
  rcases Nat.lt_trichotomy i eta.length with hlt | rfl | hgt
  · rw [List.getElem?_append_left hlt]
    simp [hlt.ne]
  · simp
  · have hnone : (eta ++ [x])[i]? = none := by simpa using Nat.succ_le_of_lt hgt
    simp [hnone, hgt.ne', hgt.le]

theorem card_saturatedPositions (g : Guards Binary64) (eta : List Binary64) :
    (g.saturatedPositions eta).card = g.saturatedCount eta := by
  induction eta using List.reverseRecOn with
  | nil => rfl
  | append_singleton eta x ih =>
    unfold Guards.saturatedCount at ih ⊢
    rw [List.countP_append, List.countP_singleton, ← ih]
    by_cases hx : g.Saturated x
    · have hpositions : g.saturatedPositions (eta ++ [x]) =
          insert eta.length (g.saturatedPositions eta) := by
        ext i
        simp [mem_saturatedPositions_concat, hx]
      rw [hpositions, Finset.card_insert_of_notMem length_not_mem_saturatedPositions]
      simp [hx]
    · have hpositions : g.saturatedPositions (eta ++ [x]) = g.saturatedPositions eta := by
        ext i
        simp [mem_saturatedPositions_concat, hx]
      rw [hpositions]
      simp [hx]

end Positions

section Elements
variable {L : Logit Binary64} {x v : Binary64}

theorem meanAt_of_lt (h : x < -L.guards.threshold) :
    L.meanAt x = proportion L.guards.floor :=
  congrArg proportion (clampedExp_of_lt h)

theorem meanAt_of_gt (hg : L.guards.Admissible) (h : L.guards.threshold < x) :
    L.meanAt x = proportion L.guards.ceiling :=
  congrArg proportion (clampedExp_of_gt hg h)

theorem meanAt_withExp (h : ¬L.guards.Saturated x) (exp : Binary64 → Binary64) :
    (L.withExp exp).meanAt x = proportion (exp x) :=
  congrArg proportion (clampedExp_of_not_saturated h)

theorem slopeAt_of_saturated (h : L.guards.Saturated x) : L.slopeAt x = L.guards.floor := if_pos h

theorem slopeAt_withExp (h : ¬L.guards.Saturated x) (exp : Binary64 → Binary64) :
    (L.withExp exp).slopeAt x = exp x / ((1 + exp x) * (1 + exp x)) := if_neg h

theorem meanAt_withGuards {g' : Guards Binary64} (h : ¬L.guards.Saturated x)
    (h' : ¬g'.Saturated x) : (L.withGuards g').meanAt x = L.meanAt x := by
  have hmean := meanAt_withExp h L.exp
  have hmean' := meanAt_withExp (L := L.withGuards g') h' L.exp
  exact hmean'.trans hmean.symm

theorem slopeAt_withGuards {g' : Guards Binary64} (h : ¬L.guards.Saturated x)
    (h' : ¬g'.Saturated x) : (L.withGuards g').slopeAt x = L.slopeAt x := by
  have hslope := slopeAt_withExp h L.exp
  have hslope' := slopeAt_withExp (L := L.withGuards g') h' L.exp
  exact hslope'.trans hslope.symm

theorem not_saturated_nan (g : Guards Binary64) : ¬g.Saturated nan := by
  rintro (h | h)
  · exact ne_nan_of_le_right (Binary64.le_of_lt h) rfl
  · exact ne_nan_of_le_left (Binary64.le_of_lt h) rfl

/-- A mean that is the same for every exponential belongs to a saturated predictor: elsewhere an
exponential of NaN gives another one than an exponential of zero. -/
theorem saturated_of_meanAt_const (h : ∀ exp, (L.withExp exp).meanAt x = v) :
    L.guards.Saturated x := by
  by_contra hsat
  have hsame : proportion nan = proportion (0 : Binary64) := by
    rw [← meanAt_withExp hsat fun _ => nan, ← meanAt_withExp hsat fun _ => 0, h, h]
  exact absurd hsame (by decide +kernel)

theorem saturated_of_slopeAt_const (h : ∀ exp, (L.withExp exp).slopeAt x = v) :
    L.guards.Saturated x := by
  by_contra hsat
  have hsame : nan / ((1 + nan) * (1 + nan)) = (0 : Binary64) / ((1 + 0) * (1 + 0)) := by
    rw [← slopeAt_withExp hsat fun _ => nan, ← slopeAt_withExp hsat fun _ => 0, h, h]
  exact absurd hsame (by decide +kernel)

end Elements

section Vectors
variable {op : Logit Binary64 → List Binary64 → Answer Binary64 (List Binary64)}
  {element : Logit Binary64 → Binary64 → Binary64} {L : Logit Binary64} {g' : Guards Binary64}
  {eta : List Binary64} {i : Nat} {v : Binary64}

theorem Logit.inverseLink_outcome (L : Logit Binary64) (heta : eta ≠ []) :
    (L.inverseLink eta).outcome = .ok (eta.map L.meanAt) := by
  rw [L.inverseLink_of_ne_nil heta]

theorem Logit.meanDerivative_outcome (L : Logit Binary64) (heta : eta ≠ []) :
    (L.meanDerivative eta).outcome = .ok (eta.map L.slopeAt) := by
  rw [L.meanDerivative_of_ne_nil heta]

/-- An operation on each element substitutes where the element comes out the same for every
exponential. -/
theorem substitutes_iff (hop : ∀ L, (op L eta).outcome = .ok (eta.map (element L))) :
    Substitutes op L eta i v ↔ ∃ x, eta[i]? = some x ∧ ∀ exp, element (L.withExp exp) x = v := by
  have hresult : ∀ exp vs, (op (L.withExp exp) eta).outcome = .ok vs →
      vs[i]? = eta[i]?.map (element (L.withExp exp)) := by
    intro exp vs hvs
    rw [hop] at hvs
    cases hvs
    rw [List.getElem?_map]
  constructor
  · intro h
    obtain ⟨vs, hvs, hv⟩ := h L.exp
    rw [hresult L.exp vs hvs, Option.map_eq_some_iff] at hv
    obtain ⟨x, hx, -⟩ := hv
    refine ⟨x, hx, ?_⟩
    intro exp
    obtain ⟨vs, hvs, hv⟩ := h exp
    rw [hresult exp vs hvs, hx] at hv
    exact Option.some.inj hv
  · rintro ⟨x, hx, h⟩ exp
    refine ⟨_, hop _, ?_⟩
    rw [List.getElem?_map, hx]
    exact congrArg some (h exp)

theorem agreeUnsaturated_of_map
    (hop : ∀ L, eta ≠ [] → (op L eta).outcome = .ok (eta.map (element L)))
    (helement : ∀ x, ¬L.guards.Saturated x → ¬g'.Saturated x →
      element (L.withGuards g') x = element L x) :
    AgreeUnsaturated L.guards g' eta (op L eta) (op (L.withGuards g') eta) := by
  intro i x hx hsat hsat'
  have heta : eta ≠ [] := List.ne_nil_of_mem (List.mem_of_getElem? hx)
  refine ⟨_, _, element L x, hop L heta, hop _ heta, ?_, ?_⟩
  · rw [List.getElem?_map, hx]
    rfl
  · rw [List.getElem?_map, hx]
    exact congrArg some (helement x hsat hsat')

theorem substitutes_mean_of_lt {x : Binary64} (hx : eta[i]? = some x)
    (h : x < -L.guards.threshold) :
    Substitutes Logit.inverseLink L eta i (proportion L.guards.floor) := by
  have heta : eta ≠ [] := List.ne_nil_of_mem (List.mem_of_getElem? hx)
  exact (substitutes_iff fun L => L.inverseLink_outcome heta).mpr ⟨x, hx, fun _ => meanAt_of_lt h⟩

theorem substitutes_mean_of_gt (hg : L.guards.Admissible) {x : Binary64} (hx : eta[i]? = some x)
    (h : L.guards.threshold < x) :
    Substitutes Logit.inverseLink L eta i (proportion L.guards.ceiling) := by
  have heta : eta ≠ [] := List.ne_nil_of_mem (List.mem_of_getElem? hx)
  exact (substitutes_iff fun L => L.inverseLink_outcome heta).mpr
    ⟨x, hx, fun _ => meanAt_of_gt hg h⟩

theorem mem_saturatedPositions_of_mean (heta : eta ≠ [])
    (h : Substitutes Logit.inverseLink L eta i v) : i ∈ L.guards.saturatedPositions eta := by
  obtain ⟨x, hx, hconst⟩ := (substitutes_iff fun L => L.inverseLink_outcome heta).mp h
  exact mem_saturatedPositions.mpr ⟨x, hx, saturated_of_meanAt_const hconst⟩

theorem mem_saturatedPositions_iff_mean (hg : L.guards.Admissible) (heta : eta ≠ []) :
    i ∈ L.guards.saturatedPositions eta ↔
      Substitutes Logit.inverseLink L eta i (proportion L.guards.floor) ∨
        Substitutes Logit.inverseLink L eta i (proportion L.guards.ceiling) := by
  constructor
  · intro h
    obtain ⟨x, hx, hhigh | hlow⟩ := mem_saturatedPositions.mp h
    · exact .inr (substitutes_mean_of_gt hg hx hhigh)
    · exact .inl (substitutes_mean_of_lt hx hlow)
  · rintro (h | h)
    · exact mem_saturatedPositions_of_mean heta h
    · exact mem_saturatedPositions_of_mean heta h

theorem mem_saturatedPositions_iff_slope (heta : eta ≠ []) :
    i ∈ L.guards.saturatedPositions eta ↔
      Substitutes Logit.meanDerivative L eta i L.guards.floor := by
  rw [substitutes_iff fun L => L.meanDerivative_outcome heta, mem_saturatedPositions]
  constructor
  · rintro ⟨x, hx, hsat⟩
    exact ⟨x, hx, fun _ => slopeAt_of_saturated hsat⟩
  · rintro ⟨x, hx, hconst⟩
    exact ⟨x, hx, saturated_of_slopeAt_const hconst⟩

theorem missing_unsaturated (hnan : L.exp nan = nan) (heta : eta ≠ [])
    (hi : eta[i]? = some nan) : i ∉ L.guards.saturatedPositions eta ∧
    ∃ mu slopes, (L.inverseLink eta).outcome = .ok mu ∧ mu[i]? = some nan ∧
      (L.meanDerivative eta).outcome = .ok slopes ∧ slopes[i]? = some nan := by
  have hunsaturated := not_saturated_nan L.guards
  have hmean : L.meanAt nan = nan := by
    have hevaluated := meanAt_withExp hunsaturated L.exp
    rw [hnan] at hevaluated
    exact hevaluated
  have hslope : L.slopeAt nan = nan := by
    have hevaluated := slopeAt_withExp hunsaturated L.exp
    rw [hnan] at hevaluated
    exact hevaluated
  refine ⟨?_, _, _, L.inverseLink_outcome heta, ?_, L.meanDerivative_outcome heta, ?_⟩
  · intro h
    obtain ⟨x, hx, hsat⟩ := mem_saturatedPositions.mp h
    rw [hi] at hx
    cases hx
    exact hunsaturated hsat
  · rw [List.getElem?_map, hi]
    exact congrArg some hmean
  · rw [List.getElem?_map, hi]
    exact congrArg some hslope

end Vectors

/-- With guards that are accepted all tests for saturation mark the same positions, and only there
it matters which guards they are. -/
theorem saturation_marked {L : Logit Binary64} {threshold floor : Binary64}
    (hg : Guards.ofBounds threshold floor = .ok L.guards) (hnan : L.exp nan = nan) :
    (∀ eta, eta ≠ [] → SaturationMarked L eta) ∧
    ∀ (g' : Guards Binary64) (eta : List Binary64),
      AgreeUnsaturated L.guards g' eta (L.inverseLink eta) ((L.withGuards g').inverseLink eta) ∧
      AgreeUnsaturated L.guards g' eta (L.meanDerivative eta)
        ((L.withGuards g').meanDerivative eta) := by
  obtain ⟨-, hadm⟩ := Guards.ofBounds_eq_ok_iff.mp hg
  refine ⟨fun eta heta => ?_, fun g' eta => ⟨?_, ?_⟩⟩
  · constructor
    case below => exact fun i x hx h => substitutes_mean_of_lt hx h
    case above => exact fun i x hx h => substitutes_mean_of_gt hadm hx h
    case means => exact fun i => mem_saturatedPositions_iff_mean hadm heta
    case slopes => exact fun i => mem_saturatedPositions_iff_slope heta
    case meanLog => rw [L.inverseLink_of_ne_nil heta, card_saturatedPositions]
    case slopeLog => rw [L.meanDerivative_of_ne_nil heta, card_saturatedPositions]
    case missing => exact fun i hi => missing_unsaturated hnan heta hi
  · exact agreeUnsaturated_of_map (fun L => L.inverseLink_outcome) fun _ => meanAt_withGuards
  · exact agreeUnsaturated_of_map (fun L => L.meanDerivative_outcome) fun _ => slopeAt_withGuards

def Elementary.steppedPropagating : Elementary Binary64 :=
  { Elementary.stepped with exp := fun x => if x = nan then x else Elementary.stepped.exp x }

/-- A link that is saturated beyond one. -/
def Logit.narrow : Logit Binary64 :=
  { Elementary.steppedPropagating with guards := ⟨1, 0.25⟩ }

theorem admissible_narrow : Guards.ofBounds 1 0.25 = .ok Logit.narrow.guards :=
  Guards.ofBounds_eq_ok_iff.mpr ⟨rfl, by decide +kernel⟩

/-- The guards compared with find one saturated, too. -/
theorem saturation_marked_narrow :
    Guards.ofBounds 1 0.25 = .ok Logit.narrow.guards ∧ Logit.narrow.exp nan = nan ∧
      Logit.narrow.guards.saturatedPositions [nan, 0, 1, infinity true, 2] = {3, 4} ∧
      SaturationMarked Logit.narrow [nan, 0, 1, infinity true, 2] ∧
      AgreeUnsaturated Logit.narrow.guards ⟨0.5, 0.125⟩ [nan, 0, 1, infinity true, 2]
        (Logit.narrow.inverseLink [nan, 0, 1, infinity true, 2])
        ((Logit.narrow.withGuards ⟨0.5, 0.125⟩).inverseLink [nan, 0, 1, infinity true, 2]) := by
  have hnan : Logit.narrow.exp nan = nan := by decide +kernel
  have hmarked := saturation_marked admissible_narrow hnan
  exact ⟨admissible_narrow, hnan, by decide +kernel, hmarked.1 _ (List.cons_ne_nil _ _),
    (hmarked.2 _ _).1⟩

end BinomialLogit
