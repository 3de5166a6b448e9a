import BinomialLogit.Proofs.Saturation.Guarded

/-! The guarded exponential as a clamp. Guards are accepted without a look at the exponential, which
may leave the interval from the floor to the ceiling before the threshold is reached and comes back
to it with a step in the wrong direction. Nothing of the kind happens exactly when floor and ceiling
enclose the exponential at the thresholds, as those of the standard guards do. -/

namespace BinomialLogit
set_option autoImplicit false
open Binary64

/-- Greater arguments do not get lesser values, and only NaN gets NaN. -/
def Binary64.Nondecreasing (f : Binary64 → Binary64) : Prop := ∀ x y, x ≤ y → f x ≤ f y

/-- The exponential at the thresholds is not beyond the odds that replace it there. -/
def Guards.Encloses (g : Guards Binary64) (exp : Binary64 → Binary64) : Prop :=
  g.floor ≤ exp (-g.threshold) ∧ exp g.threshold ≤ g.ceiling

instance (g : Guards Binary64) (exp : Binary64 → Binary64) : Decidable (g.Encloses exp) :=
  inferInstanceAs (Decidable (_ ∧ _))

namespace Guards.Admissible
variable {g : Guards Binary64} (h : g.Admissible)
include h

theorem floor_le_ceiling : g.floor ≤ g.ceiling :=
  Binary64.le_trans (Binary64.le_of_lt h.2.2.2) h.one_le_ceiling

theorem neg_threshold_le : -g.threshold ≤ g.threshold := by
  have hpos := h.1.1.pos_iff.mp h.1.2
  rw [le_iff_value_le (isFinite_neg h.1.1) h.1.1, value_neg]
  linarith

theorem not_saturated_threshold : ¬g.Saturated g.threshold :=
  (h.not_saturated_iff h.1.1.ne_nan).mpr ⟨h.neg_threshold_le, Binary64.le_refl h.1.1.ne_nan⟩

theorem not_saturated_neg_threshold : ¬g.Saturated (-g.threshold) := by
  have hne := (isFinite_neg h.1.1).ne_nan
  exact (h.not_saturated_iff hne).mpr ⟨Binary64.le_refl hne, h.neg_threshold_le⟩

end Guards.Admissible

section Clamp
variable {fns : Elementary Binary64} {g : Guards Binary64} {x : Binary64}

theorem clampedExp_of_not_saturated (h : ¬g.Saturated x) : fns.clampedExp g x = fns.exp x := by
  rcases fns.clampedExp_cases g x with ⟨hlt, -⟩ | ⟨hlt, -⟩ | ⟨-, ht⟩
  · exact absurd (.inr hlt) h
  · exact absurd (.inl hlt) h
  · exact ht

theorem clampedExp_of_lt (h : x < -g.threshold) : fns.clampedExp g x = g.floor := if_pos h

theorem clampedExp_of_gt (hg : g.Admissible) (h : g.threshold < x) :
    fns.clampedExp g x = g.ceiling := by
  have hlow : ¬x < -g.threshold := fun hlt =>
    Binary64.not_le_of_lt (Binary64.lt_of_lt_of_le hlt hg.neg_threshold_le) (Binary64.le_of_lt h)
  unfold Elementary.clampedExp
  rw [if_neg hlow, if_pos h]

variable (hmono : Nondecreasing fns.exp) (hg : g.Admissible)
include hmono hg

theorem Guards.Encloses.clampedExp_between (h : g.Encloses fns.exp) (hx : x ≠ nan) :
    g.floor ≤ fns.clampedExp g x ∧ fns.clampedExp g x ≤ g.ceiling := by
  have hfloor := hg.floor_le_ceiling
  rcases fns.clampedExp_cases g x with ⟨-, ht⟩ | ⟨-, ht⟩ | ⟨hsat, ht⟩
  · rw [ht]
    exact ⟨Binary64.le_refl (ne_nan_of_le_left hfloor), hfloor⟩
  · rw [ht]
    exact ⟨hfloor, Binary64.le_refl (ne_nan_of_le_right hfloor)⟩
  · obtain ⟨hlow, hhigh⟩ := (hg.not_saturated_iff hx).mp hsat
    rw [ht]
    exact ⟨Binary64.le_trans h.1 (hmono _ _ hlow), Binary64.le_trans (hmono _ _ hhigh) h.2⟩

theorem clampedExp_between_iff :
    (∀ x ≠ nan, g.floor ≤ fns.clampedExp g x ∧ fns.clampedExp g x ≤ g.ceiling) ↔
      g.Encloses fns.exp := by
  constructor
  · intro h
    have hlow := (h (-g.threshold) (isFinite_neg hg.1.1).ne_nan).1
    have hhigh := (h g.threshold hg.1.1.ne_nan).2
    rw [clampedExp_of_not_saturated hg.not_saturated_neg_threshold] at hlow
    rw [clampedExp_of_not_saturated hg.not_saturated_threshold] at hhigh
    exact ⟨hlow, hhigh⟩
  · intro h x hx
    exact h.clampedExp_between hmono hg hx

theorem Guards.Encloses.clampedExp_nondecreasing (h : g.Encloses fns.exp) :
    Nondecreasing (fns.clampedExp g) := by
  intro x y hxy
  obtain ⟨hlow, hhigh⟩ := h.clampedExp_between hmono hg (ne_nan_of_le_left hxy)
  obtain ⟨hlow', hhigh'⟩ := h.clampedExp_between hmono hg (ne_nan_of_le_right hxy)
  rcases fns.clampedExp_cases g x with ⟨-, hx⟩ | ⟨hlt, -⟩ | ⟨hsat, hx⟩
  · exact hx ▸ hlow'
  · rw [clampedExp_of_gt hg (Binary64.lt_of_lt_of_le hlt hxy)]
    exact hhigh
  · rcases fns.clampedExp_cases g y with ⟨hlt, -⟩ | ⟨-, hy⟩ | ⟨-, hy⟩
    · exact absurd (.inr (Binary64.lt_of_le_of_lt hxy hlt)) hsat
    · exact hy ▸ hhigh
    · rw [hx, hy]
      exact hmono x y hxy

theorem clampedExp_nondecreasing_iff :
    Nondecreasing (fns.clampedExp g) ↔ g.Encloses fns.exp := by
  constructor
  · intro h
    have hbelow := (isFinite_neg hg.1.1).infinity_lt
    have habove := hg.1.1.lt_infinity
    have hlow := h _ _ (Binary64.le_of_lt hbelow)
    have hhigh := h _ _ (Binary64.le_of_lt habove)
    rw [clampedExp_of_lt hbelow, clampedExp_of_not_saturated hg.not_saturated_neg_threshold] at hlow
    rw [clampedExp_of_gt hg habove, clampedExp_of_not_saturated hg.not_saturated_threshold] at hhigh
    exact ⟨hlow, hhigh⟩
  · exact fun h => h.clampedExp_nondecreasing hmono hg

end Clamp

/-- The standard guards enclose every exponential within its bounds. -/
theorem Guards.encloses_standard {exp : Binary64 → Binary64} (hexp : ExpBounded exp) :
    Guards.standard.Encloses exp := by
  obtain ⟨hlowfin, hlow, -⟩ := hexp (-30) (by decide +kernel) (by decide +kernel)
  obtain ⟨hhighfin, -, hhigh⟩ := hexp 30 (by decide +kernel) (by decide +kernel)
  obtain ⟨hfin, hceiling⟩ := value_inverse_epsilon
  constructor
  · refine (le_iff_value_le isFinite_epsilon hlowfin).mpr ?_
    rw [value_epsilon]
    norm_num at hlow ⊢
    linarith
  · refine (le_iff_value_le hhighfin hfin).mpr ?_
    rw [hceiling]
    norm_num at hhigh ⊢
    linarith

/-- Guards that are accepted make a clamp of a nondecreasing exponential, in either sense, if and
only if they enclose it. -/
theorem clampedExp_clamp_iff {fns : Elementary Binary64} (hmono : Nondecreasing fns.exp)
    {threshold floor : Binary64} {g : Guards Binary64}
    (hg : Guards.ofBounds threshold floor = .ok g) :
    ((∀ x ≠ nan, floor ≤ fns.clampedExp g x ∧ fns.clampedExp g x ≤ 1 / floor) ↔
      floor ≤ fns.exp (-threshold) ∧ fns.exp threshold ≤ 1 / floor) ∧
    (Nondecreasing (fns.clampedExp g) ↔
      floor ≤ fns.exp (-threshold) ∧ fns.exp threshold ≤ 1 / floor) := by
  obtain ⟨rfl, hadm⟩ := Guards.ofBounds_eq_ok_iff.mp hg
  exact ⟨clampedExp_between_iff hmono hadm, clampedExp_nondecreasing_iff hmono hadm⟩

/-- Right at minus one, at zero and at one. -/
def Elementary.stepped : Elementary Binary64 :=
  { Elementary.tabulated with
    exp := fun x =>
      if x < 0 then 0.36787944117144233 else if x < 1 then 1 else 2.718281828459045 }

theorem nondecreasing_stepped : Nondecreasing Elementary.stepped.exp := by
  intro x y hxy
  change ite _ _ _ ≤ ite _ _ _
  by_cases hy0 : y < 0
  · rw [if_pos hy0, if_pos (Binary64.lt_of_le_of_lt hxy hy0)]
    decide +kernel
  · rw [if_neg hy0]
    by_cases hy1 : y < 1
    · rw [if_pos hy1, if_pos (Binary64.lt_of_le_of_lt hxy hy1)]
      split <;> decide +kernel
    · rw [if_neg hy1]
      split
      · decide +kernel
      · split <;> decide +kernel

theorem clampedExp_clamp_iff_quarter : Guards.ofBounds 1 0.25 = .ok ⟨1, 0.25⟩ ∧
    ((∀ x ≠ nan, 0.25 ≤ Elementary.stepped.clampedExp ⟨1, 0.25⟩ x ∧
        Elementary.stepped.clampedExp ⟨1, 0.25⟩ x ≤ 1 / 0.25) ↔
      0.25 ≤ Elementary.stepped.exp (-1) ∧ Elementary.stepped.exp 1 ≤ 1 / 0.25) ∧
    (Nondecreasing (Elementary.stepped.clampedExp ⟨1, 0.25⟩) ↔
      0.25 ≤ Elementary.stepped.exp (-1) ∧ Elementary.stepped.exp 1 ≤ 1 / 0.25) := by
  have hg : Guards.ofBounds 1 0.25 = .ok ⟨1, 0.25⟩ :=
    Guards.ofBounds_eq_ok_iff.mpr ⟨rfl, by decide +kernel⟩
  exact ⟨hg, clampedExp_clamp_iff nondecreasing_stepped hg⟩

/-- A floor of one half is accepted with a threshold of one. The exponential of the threshold is
above the ceiling, and just past it the odds drop to the ceiling. -/
theorem clampedExp_exceeds_ceiling :
    Guards.ofBounds 1 0.5 = .ok ⟨1, 0.5⟩ ∧ Nondecreasing Elementary.stepped.exp ∧
      Elementary.stepped.clampedExp ⟨1, 0.5⟩ 1 = 2.718281828459045 ∧
      ¬Elementary.stepped.clampedExp ⟨1, 0.5⟩ 1 ≤ 1 / 0.5 ∧
      Elementary.stepped.clampedExp ⟨1, 0.5⟩ 2 < Elementary.stepped.clampedExp ⟨1, 0.5⟩ 1 :=
  ⟨Guards.ofBounds_eq_ok_iff.mpr ⟨rfl, by decide +kernel⟩, nondecreasing_stepped,
    by decide +kernel, by decide +kernel, by decide +kernel⟩

end BinomialLogit
