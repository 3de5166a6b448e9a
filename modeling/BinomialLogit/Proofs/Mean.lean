import BinomialLogit.Logit
import BinomialLogit.Proofs.Binary64.Rounds

/-! A mean strictly inside the unit interval. It keeps a distance of 2^-53 from one, so that its
complement, its odds and its variance round to positive finite numbers however small it is. The
distance is all that complement and odds need, so a mean of zero has them as well. -/

namespace BinomialLogit
set_option autoImplicit false
open Binary64

/-- A usable mean, as a finite double with its value. -/
structure Interior (m : Binary64) : Prop where
  isFinite : m.IsFinite
  pos : 0 < m.value
  lt_one : m.value < 1

/-- A mean short of one, as a finite double with its value. It may be a zero of either sign. -/
structure ShortOfOne (m : Binary64) : Prop where
  isFinite : m.IsFinite
  nonneg : 0 ≤ m.value
  lt_one : m.value < 1

namespace ShortOfOne
variable {m : Binary64} (h : ShortOfOne m)
include h

theorem le_one_sub : m.value ≤ 1 - 1 / 2 ^ 53 := by
  have hgap := (isValue_value m).le_sub_mul isValue_one h.nonneg h.lt_one
  norm_num at hgap ⊢
  linarith

theorem complement : (1 - m).IsFinite ∧ 1 / 2 ^ 53 ≤ (1 - m).value ∧ (1 - m).value ≤ 1 :=
  (rounds_one_sub h.isFinite).between (isValue_one_div_two_pow (by norm_num)) isValue_one
    (by linarith [h.le_one_sub]) (by linarith [h.nonneg])

theorem complement_pos : 0 < (1 - m).value :=
  lt_of_lt_of_le (by norm_num) h.complement.2.1

theorem complement_error : |(1 - m).value - (1 - m.value)| ≤ (1 - m.value) / 2 ^ 53 := by
  have hlow : 1 / 2 ^ 53 ≤ 1 - m.value := by linarith [h.le_one_sub]
  have hpos : 0 < 1 - m.value := lt_of_lt_of_le (by positivity) hlow
  obtain ⟨-, herror⟩ := (rounds_one_sub h.isFinite).relative_error
    (by rw [abs_of_pos hpos]; linarith) (by rw [abs_of_pos hpos]; linarith [h.nonneg])
  rwa [abs_of_pos hpos] at herror

theorem rounds_odds : Rounds (m.value / (1 - m).value) (m / (1 - m)) :=
  rounds_div h.isFinite h.complement.1 h.complement_pos.ne'

theorem odds_between :
    (m / (1 - m)).IsFinite ∧ m.value ≤ (m / (1 - m)).value ∧ (m / (1 - m)).value ≤ 2 ^ 53 := by
  obtain ⟨-, hlow, hle⟩ := h.complement
  have hpos := h.complement_pos
  refine h.rounds_odds.between (isValue_value m) (isValue_two_pow (by norm_num)) ?_ ?_
  · rw [le_div_iff₀ hpos]
    exact mul_le_of_le_one_right h.nonneg hle
  · rw [div_le_iff₀ hpos]
    norm_num at hlow ⊢
    linarith [h.lt_one]

end ShortOfOne

theorem interior_iff {m : Binary64} : Interior m ↔ 0 < m ∧ m < 1 := by
  constructor
  · intro h
    exact ⟨h.isFinite.pos_iff.mpr h.pos, h.isFinite.lt_one_iff.mpr h.lt_one⟩
  · intro h
    obtain ⟨h0, h1⟩ := h
    have hfin : m.IsFinite := isFinite_of_le_of_le isFinite_numeral_zero isFinite_one
      (Binary64.le_of_lt h0) (Binary64.le_of_lt h1)
    exact ⟨hfin, hfin.pos_iff.mp h0, hfin.lt_one_iff.mp h1⟩

theorem validMean_iff {mu : List Binary64} : ValidMean mu ↔ ∀ m ∈ mu, Interior m := by
  simp only [ValidMean, interior_iff]

namespace Interior
variable {m : Binary64}

theorem inside (h : Interior m) : ¬(m < 0 ∨ 1 < m) := by
  obtain ⟨h0, h1⟩ := interior_iff.mp h
  intro houtside
  rcases houtside with hlow | hhigh
  · exact Binary64.not_le_of_lt hlow (Binary64.le_of_lt h0)
  · exact Binary64.not_le_of_lt hhigh (Binary64.le_of_lt h1)

theorem shortOfOne (h : Interior m) : ShortOfOne m := ⟨h.isFinite, h.pos.le, h.lt_one⟩

theorem complement (h : Interior m) :
    (1 - m).IsFinite ∧ 1 / 2 ^ 53 ≤ (1 - m).value ∧ (1 - m).value ≤ 1 :=
  h.shortOfOne.complement

/-- Below half the spacing under one the complement rounds to one. -/
theorem complement_eq_one (h : Interior m) (hm : m.value < 1 / 2 ^ 54) : (1 - m).value = 1 := by
  obtain ⟨hfin, hlow, hle⟩ := h.complement
  have hround := rounds_one_sub h.isFinite
  by_contra hne
  have hgap := (isValue_value (1 - m)).le_sub_mul isValue_one
    (le_trans (by norm_num) hlow) (lt_of_le_of_ne hle hne)
  have hnear := hround.abs_sub_le hfin isValue_one
  rw [sub_sub_cancel, abs_of_pos h.pos, abs_sub_comm] at hnear
  have hdist := (abs_le.mp hnear).2
  norm_num at hgap hm
  linarith

theorem odds_pos (h : Interior m) :
    (m / (1 - m)).IsFinite ∧ 0 < (m / (1 - m)).value ∧ (m / (1 - m)).value ≤ 2 ^ 53 := by
  obtain ⟨hfin, hge, hle⟩ := h.shortOfOne.odds_between
  exact ⟨hfin, lt_of_lt_of_le h.pos hge, hle⟩

theorem varianceAt_pos (h : Interior m) : (varianceAt m).IsFinite ∧ 0 < (varianceAt m).value := by
  obtain ⟨hfin, hlow, hle⟩ := h.complement
  have hround : Rounds (m.value * (1 - m).value) (varianceAt m) := rounds_mul h.isFinite hfin
  rcases lt_or_ge m.value (1 / 2 ^ 54) with hm | hm
  · rw [h.complement_eq_one hm, mul_one] at hround
    obtain ⟨hz, hval⟩ := hround.eq_of_isValue (isValue_value m)
    exact ⟨hz, hval ▸ h.pos⟩
  · obtain ⟨hz, hge, -⟩ := hround.between (isValue_one_div_two_pow (n := 107) (by norm_num))
      isValue_one
      (by
        calc (1 : ℚ) / 2 ^ 107 = 1 / 2 ^ 54 * (1 / 2 ^ 53) := by norm_num
          _ ≤ m.value * (1 - m).value := mul_le_mul hm hlow (by positivity) h.pos.le)
      (by nlinarith [h.pos, h.lt_one])
    exact ⟨hz, lt_of_lt_of_le (by positivity) hge⟩

end Interior

end BinomialLogit
