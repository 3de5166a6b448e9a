import BinomialLogit.Proofs.Mean

/-! Odds that a proportion can be taken of. The proportion lies strictly inside the unit interval
exactly when the odds are positive and adding one still changes them; such odds are at most 2^54, so
the derivative neither overflows nor underflows. -/

namespace BinomialLogit
set_option autoImplicit false
open Binary64

/-- Positive odds in which the one added to them is not lost. -/
def ProperOdds (t : Binary64) : Prop := 0 < t ∧ t < 1 + t

instance (t : Binary64) : Decidable (ProperOdds t) := inferInstanceAs (Decidable (_ ∧ _))

theorem isFinite_one_add {t : Binary64} (ht : t.IsFinite) : (1 + t).IsFinite := by
  refine (rounds_one_add ht).isFinite ((abs_add_le _ _).trans_lt ?_)
  have hmax := abs_value_le_max t
  have hsplit : (2 : ℚ) ^ (971 : ℤ) = 2 ^ (970 : ℤ) * 2 := by
    rw [← zpow_add_one₀ (by norm_num)]
    congr 1
  have hbig : (1 : ℚ) < 2 ^ (970 : ℤ) := one_lt_zpow₀ (by norm_num) (by norm_num)
  rw [hsplit] at hmax
  rw [abs_one]
  generalize (2 : ℚ) ^ (970 : ℤ) = p at hmax hbig ⊢
  generalize (2 : ℚ) ^ (1024 : ℤ) = q at hmax ⊢
  linarith

theorem not_isFinite_div {x y : Binary64} (hx : x.IsFinite) (hy : y.IsFinite) (hy0 : y.value = 0) :
    ¬(x / y).IsFinite := by
  obtain ⟨s, u, hu, rfl⟩ := hx
  obtain ⟨t, v, hv, rfl⟩ := hy
  have hv0 : v = 0 := by
    rw [value_finite, div_eq_zero_iff] at hy0
    rcases hy0 with h | h
    · cases t <;> simpa using h
    · exact absurd h unitsInOne_pos.ne'
  change ¬(Binary64.div _ _).IsFinite
  rw [Binary64.div, if_neg (by simpa using hv0)]
  split
  · exact not_isFinite_nan
  · exact not_isFinite_infinity _

namespace ProperOdds
variable {t : Binary64}

theorem isFinite (h : ProperOdds t) : t.IsFinite := by
  obtain ⟨hpos, hlt⟩ := h
  cases t with
  | nan => exact absurd rfl (ne_nan_of_le_right (Binary64.le_of_lt hpos))
  | finite s u hu => exact isFinite_finite s u hu
  | infinity s =>
    cases s with
    | false => exact absurd hlt (by decide +kernel)
    | true => exact absurd hpos (by decide +kernel)

theorem pos (h : ProperOdds t) : 0 < t.value := h.isFinite.pos_iff.mp h.1

theorem lt_one_add (h : ProperOdds t) : t.value < (1 + t).value :=
  (lt_iff_value_lt h.isFinite (isFinite_one_add h.isFinite)).mp h.2

theorem one_le_one_add (h : ProperOdds t) : 1 ≤ (1 + t).value := by
  have hround := rounds_one_add h.isFinite
  exact hround.le_value (isFinite_one_add h.isFinite) isValue_one (by linarith [h.pos])

/-- The odds themselves are as far from the sum as one. -/
theorem one_add_le (h : ProperOdds t) : (1 + t).value ≤ t.value + 2 := by
  have hround := rounds_one_add h.isFinite
  have hnear := hround.abs_sub_le (isFinite_one_add h.isFinite) (isValue_value t)
  rw [sub_add_cancel_right, abs_neg, abs_one] at hnear
  linarith [(abs_le.mp hnear).2]

theorem one_add_le_two_pow (h : ProperOdds t) : (1 + t).value ≤ 2 ^ 54 := by
  have hgap := (isValue_value t).le_sub_mul (isValue_value (1 + t)) h.pos.le h.lt_one_add
  have hle := h.one_add_le
  norm_num at hgap ⊢
  linarith

/-- Tiny odds vanish beside the one. -/
theorem one_add_eq_one (h : ProperOdds t) (ht : t.value < 1 / 2 ^ 54) : (1 + t).value = 1 := by
  by_contra hne
  have hround := rounds_one_add h.isFinite
  have hgap := isValue_one.le_sub_mul (isValue_value (1 + t)) zero_le_one
    (lt_of_le_of_ne h.one_le_one_add (Ne.symm hne))
  have hnear := hround.abs_sub_le (isFinite_one_add h.isFinite) isValue_one
  rw [show (1 : ℚ) - (1 + t.value) = -t.value by ring, abs_neg, abs_of_pos h.pos] at hnear
  have hdist := (abs_le.mp hnear).2
  norm_num at hgap ht
  linarith

theorem interior (h : ProperOdds t) : Interior (proportion t) := by
  have hfin := isFinite_one_add h.isFinite
  have hpos := h.pos
  have hlt := h.lt_one_add
  have hone := h.one_le_one_add
  have hden : 0 < (1 + t).value := by linarith
  have hround : Rounds (t.value / (1 + t).value) (proportion t) :=
    rounds_div h.isFinite hfin hden.ne'
  have hgap := (isValue_value t).le_sub_mul (isValue_value (1 + t)) hpos.le hlt
  have htop : t.value / (1 + t).value ≤ 1 - 1 / 2 ^ 53 := by
    rw [div_le_iff₀ hden]
    norm_num at hgap ⊢
    linarith
  rcases lt_or_ge t.value (1 / 2 ^ 54) with ht | ht
  · rw [h.one_add_eq_one ht, div_one] at hround
    obtain ⟨hz, hval⟩ := hround.eq_of_isValue (isValue_value t)
    exact ⟨hz, hval ▸ hpos, hval ▸ ht.trans (by norm_num)⟩
  · obtain ⟨hz, hge, hle⟩ := hround.between (isValue_one_div_two_pow (n := 56) (by norm_num))
      (isValue_one_sub (n := 53) (by norm_num))
      (by
        rw [le_div_iff₀ hden]
        have hle := h.one_add_le
        norm_num at ht ⊢
        linarith)
      htop
    exact ⟨hz, lt_of_lt_of_le (by positivity) hge, lt_of_le_of_lt hle (by norm_num)⟩

theorem slope_pos (h : ProperOdds t) :
    (t / ((1 + t) * (1 + t))).IsFinite ∧ 0 < (t / ((1 + t) * (1 + t))).value := by
  have hfin := isFinite_one_add h.isFinite
  have hpos := h.pos
  have hone := h.one_le_one_add
  have htop := h.one_add_le_two_pow
  have hsquare := rounds_mul hfin hfin
  obtain ⟨hdfin, hdlow, hdhigh⟩ := hsquare.between isValue_one
    (isValue_two_pow (n := 108) (by norm_num)) (by nlinarith)
    (by
      calc (1 + t).value * (1 + t).value ≤ 2 ^ 54 * 2 ^ 54 :=
            mul_le_mul htop htop (by linarith) (by positivity)
        _ = 2 ^ 108 := by rw [← pow_add])
  have hden : 0 < ((1 + t) * (1 + t)).value := by linarith
  have hround := rounds_div h.isFinite hdfin hden.ne'
  rcases lt_or_ge t.value (1 / 2 ^ 54) with ht | ht
  · have hsum := h.one_add_eq_one ht
    rw [hsum, one_mul] at hsquare
    rw [(hsquare.eq_of_isValue isValue_one).2, div_one] at hround
    obtain ⟨hz, hval⟩ := hround.eq_of_isValue (isValue_value t)
    exact ⟨hz, hval ▸ hpos⟩
  · obtain ⟨hz, hge, -⟩ := hround.between (isValue_one_div_two_pow (n := 162) (by norm_num))
      (isValue_value t)
      (by
        rw [le_div_iff₀ hden]
        norm_num at ht hdhigh ⊢
        linarith)
      (div_le_self hpos.le hdlow)
    exact ⟨hz, lt_of_lt_of_le (by positivity) hge⟩

end ProperOdds

/-- A proportion inside the unit interval comes from proper odds alone: from others it is no number,
not positive or at least one. -/
theorem interior_proportion_iff {t : Binary64} : Interior (proportion t) ↔ ProperOdds t := by
  constructor
  · intro h
    have ht : t.IsFinite := by
      cases t with
      | nan => exact absurd h.isFinite not_isFinite_nan
      | infinity s => exact absurd h.isFinite (by cases s <;> decide +kernel)
      | finite s u hu => exact isFinite_finite s u hu
    have hfin := isFinite_one_add ht
    have hne : (1 + t).value ≠ 0 := fun h0 => not_isFinite_div ht hfin h0 h.isFinite
    have hsum := rounds_one_add ht
    have hround : Rounds (t.value / (1 + t).value) (proportion t) := rounds_div ht hfin hne
    have hge : t.value ≤ (1 + t).value := hsum.le_value hfin (isValue_value t) (by linarith)
    have hpos : 0 < t.value := by
      by_contra hle
      rcases lt_or_gt_of_ne hne with hneg | hden
      · have hone := hround.le_value h.isFinite isValue_one ((one_le_div_of_neg hneg).mpr hge)
        linarith [h.lt_one]
      · have hzero := hround.value_le h.isFinite isValue_zero
          (div_nonpos_of_nonpos_of_nonneg (not_lt.mp hle) hden.le)
        linarith [h.pos]
    refine ⟨ht.pos_iff.mpr hpos, (lt_iff_value_lt ht hfin).mpr (lt_of_le_of_ne hge ?_)⟩
    intro heq
    have hone := hround.le_value h.isFinite isValue_one (by rw [← heq, div_self hpos.ne'])
    linarith [h.lt_one]
  · exact ProperOdds.interior

theorem properOdds_of_lt_one {t : Binary64} (hpos : 0 < t) (hlt : t < 1) : ProperOdds t := by
  have ht := (interior_iff.mpr ⟨hpos, hlt⟩).isFinite
  refine ⟨hpos, Binary64.lt_of_lt_of_le hlt ?_⟩
  refine (rounds_one_add ht).ge isFinite_one ?_
  rw [value_one]
  linarith [ht.pos_iff.mp hpos]

end BinomialLogit
