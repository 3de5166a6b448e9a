import BinomialLogit.Proofs.Elementary
import BinomialLogit.Proofs.Mean

/-! The standard guards on a single predictor. The clamped exponential is the floor, its reciprocal
or an odds between 2^-44 and 2^44, and adding one to such odds loses so little that the quotients
round well inside the unit interval. -/

namespace BinomialLogit
set_option autoImplicit false
open Binary64

/-- Odds small and large enough that neither they nor the one added to them are lost. -/
structure ModerateOdds (t : Binary64) : Prop where
  isFinite : t.IsFinite
  low : 1 / 2 ^ 44 ≤ t.value
  high : t.value ≤ 2 ^ 44

namespace ModerateOdds
variable {t : Binary64}

theorem pos (h : ModerateOdds t) : 0 < t.value := lt_of_lt_of_le (by positivity) h.low

theorem one_add (h : ModerateOdds t) :
    (1 + t).IsFinite ∧ t.value + 1 / 2 ≤ (1 + t).value ∧ (1 + t).value ≤ t.value + 3 / 2 := by
  have hpos := h.pos
  have hhigh := h.high
  have hround := rounds_one_add h.isFinite
  have habs : |1 + t.value| = 1 + t.value := abs_of_pos (by linarith)
  obtain ⟨hfin, herr⟩ := hround.relative_error (by rw [habs]; norm_num; linarith)
    (by rw [habs]; norm_num at hhigh ⊢; linarith)
  have hsmall : (1 + t.value) / 2 ^ 53 ≤ 1 / 2 := by
    norm_num at hhigh ⊢
    linarith
  rw [habs] at herr
  have hsplit := abs_le.mp (herr.trans hsmall)
  exact ⟨hfin, by linarith [hsplit.1], by linarith [hsplit.2]⟩

theorem proportion_between (h : ModerateOdds t) :
    (proportion t).IsFinite ∧ 1 / 2 ^ 46 ≤ (proportion t).value ∧
      (proportion t).value ≤ 1 - 1 / 2 ^ 46 := by
  obtain ⟨hfin, hdown, hup⟩ := h.one_add
  have hpos := h.pos
  have hlow := h.low
  have hhigh := h.high
  have hden : 0 < (1 + t).value := by linarith
  have hround : Rounds (t.value / (1 + t).value) (proportion t) :=
    rounds_div h.isFinite hfin hden.ne'
  refine hround.between (isValue_one_div_two_pow (by norm_num))
    (isValue_one_sub (by norm_num)) ?_ ?_
  · rw [le_div_iff₀ hden]
    norm_num at hlow hhigh ⊢
    linarith
  · rw [div_le_iff₀ hden]
    norm_num at hhigh ⊢
    linarith

theorem slope_between (h : ModerateOdds t) :
    (t / ((1 + t) * (1 + t))).IsFinite ∧ 1 / 2 ^ 52 ≤ (t / ((1 + t) * (1 + t))).value := by
  obtain ⟨hfin, hdown, hup⟩ := h.one_add
  have hpos := h.pos
  have hlow := h.low
  have hhigh := h.high
  generalize (1 + t) = s at hfin hdown hup
  have hs : 0 < s.value := by linarith
  have hsq : |s.value * s.value| = s.value * s.value := abs_of_pos (mul_pos hs hs)
  have hsquare := rounds_mul hfin hfin
  obtain ⟨hfin', herr⟩ := hsquare.relative_error
    (by rw [hsq]; norm_num; nlinarith) (by rw [hsq]; norm_num at hhigh ⊢; nlinarith)
  rw [hsq] at herr
  have hden := abs_le.mp herr
  have hdown' : s.value * s.value / 2 ≤ (s * s).value := by
    norm_num at hden
    linarith [mul_pos hs hs]
  have hup' : (s * s).value ≤ 2 * (s.value * s.value) := by
    norm_num at hden
    linarith [mul_pos hs hs]
  have hpos' : 0 < (s * s).value := by linarith [mul_pos hs hs]
  have hround := rounds_div h.isFinite hfin' hpos'.ne'
  obtain ⟨hz, hge, -⟩ := hround.between (isValue_one_div_two_pow (n := 52) (by norm_num))
    (isValue_two_pow (n := 50) (by norm_num))
    (by
      rw [le_div_iff₀ hpos']
      -- the square is at most (t + 3/2)^2, and the bound is convex in t
      have hsq' : s.value * s.value ≤ (t.value + 3 / 2) * (t.value + 3 / 2) := by nlinarith
      have hends : 0 ≤ (t.value - 1 / 2 ^ 44) * (2 ^ 44 - t.value) :=
        mul_nonneg (by linarith) (by linarith)
      norm_num at hends hlow hhigh ⊢
      nlinarith)
    (by
      rw [div_le_iff₀ hpos']
      norm_num
      nlinarith)
  exact ⟨hz, hge⟩

end ModerateOdds

end BinomialLogit
