import BinomialLogit.Guards
import BinomialLogit.Proofs.Binary64.Value

/-! Admissible guards and the predictors between their thresholds. -/

namespace BinomialLogit.Guards
set_option autoImplicit false
open Binary64

theorem standard_admissible : standard.Admissible := by decide +kernel

namespace Admissible
variable {g : Guards Binary64}

theorem not_saturated_iff (h : g.Admissible) {x : Binary64} (hx : x ≠ nan) :
    ¬g.Saturated x ↔ -g.threshold ≤ x ∧ x ≤ g.threshold := by
  have hfin := h.1.1
  constructor
  · intro hsat
    constructor
    · by_contra hle
      exact hsat (.inr (Binary64.lt_of_not_le (isFinite_neg hfin).ne_nan hx hle))
    · by_contra hle
      exact hsat (.inl (Binary64.lt_of_not_le hx hfin.ne_nan hle))
  · intro h hsat
    obtain ⟨hlow, hhigh⟩ := h
    rcases hsat with hlt | hlt
    · exact Binary64.not_le_of_lt hlt hhigh
    · exact Binary64.not_le_of_lt hlt hlow

end Admissible

end BinomialLogit.Guards
