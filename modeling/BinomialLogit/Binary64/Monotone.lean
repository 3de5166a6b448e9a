import BinomialLogit.Binary64.Rounding

/-! Rounding keeps order: a smaller quotient does not round to a greater magnitude. Within one
grid this is the order of the rounded integers, which `roundHalfEven_le_iff` describes by the
middles between them; between two grids a power of two stands, and rounding passes none. -/

namespace BinomialLogit.Binary64
set_option autoImplicit false
attribute [local instance (2000)] instPowNat

/-- The rounded quotient is at most `k` when the quotient is below the middle between `k` and its
successor, or at the middle with `k` even. -/
theorem roundHalfEven_le_iff {num den k : Nat} (hd : 0 < den) :
    roundHalfEven num den ≤ k ↔
      2 * num < (2 * k + 1) * den ∨ 2 * num = (2 * k + 1) * den ∧ k % 2 = 0 := by
  have hnum := Nat.div_add_mod num den
  have hrest := Nat.mod_lt num hd
  unfold roundHalfEven
  dsimp only
  generalize num / den = q at hnum ⊢
  generalize num % den = r at hnum hrest ⊢
  subst hnum
  rw [show 2 * (den * q + r) = 2 * q * den + 2 * r by
    rw [Nat.mul_add, Nat.mul_comm den q, Nat.mul_assoc]]
  rcases Nat.lt_trichotomy k q with h | rfl | h
  · have hle := Nat.mul_le_mul_right den (show 2 * k + 1 + 1 ≤ 2 * q by omega)
    rw [Nat.add_mul _ 1 den] at hle
    split <;> omega
  · rw [Nat.add_mul _ 1 den]
    split <;> omega
  · have hle := Nat.mul_le_mul_right den (show 2 * q + 2 ≤ 2 * k + 1 by omega)
    rw [Nat.add_mul _ 2 den] at hle
    split <;> omega

theorem roundHalfEven_mono {num den num' den' : Nat} (hd : 0 < den) (hd' : 0 < den')
    (h : num * den' ≤ num' * den) : roundHalfEven num den ≤ roundHalfEven num' den' := by
  have h2 : 2 * num * den' ≤ 2 * num' * den := by
    rw [Nat.mul_assoc, Nat.mul_assoc]
    exact Nat.mul_le_mul_left 2 h
  have hk := (roundHalfEven_le_iff hd').mp (Nat.le_refl (roundHalfEven num' den'))
  rw [roundHalfEven_le_iff hd]
  generalize roundHalfEven num' den' = k at hk
  have hswap : (2 * k + 1) * den' * den = (2 * k + 1) * den * den' := Nat.mul_right_comm ..
  rcases hk with hlt | ⟨heq, heven⟩
  · left
    apply Nat.lt_of_mul_lt_mul_right (a := den')
    calc 2 * num * den' ≤ 2 * num' * den := h2
      _ < (2 * k + 1) * den' * den := Nat.mul_lt_mul_of_pos_right hlt hd
      _ = (2 * k + 1) * den * den' := hswap
  · have hle : 2 * num ≤ (2 * k + 1) * den := by
      apply Nat.le_of_mul_le_mul_right (c := den') _ hd'
      calc 2 * num * den' ≤ 2 * num' * den := h2
        _ = (2 * k + 1) * den * den' := by rw [heq, hswap]
    rcases Nat.lt_or_eq_of_le hle with hlt | he
    · exact .inl hlt
    · exact .inr ⟨he, heven⟩

theorem roundHalfEven_exact (k : Nat) {den : Nat} (hd : 0 < den) :
    roundHalfEven (k * den) den = k := by
  apply Nat.le_antisymm
  · exact (roundHalfEven_le_iff hd).mpr (.inl (by rw [Nat.add_mul, Nat.mul_assoc]; omega))
  · exact Nat.le_trans (Nat.le_of_eq (Nat.mul_div_cancel k hd).symm) (div_le_roundHalfEven ..)

private theorem nearestUnits_mono_of_granule {num den num' den' : Nat} (hd : 0 < den)
    (hd' : 0 < den') (h : num * den' ≤ num' * den)
    (hg : granule (num / den) = granule (num' / den')) :
    nearestUnits num den ≤ nearestUnits num' den' := by
  have hpos := granule_pos (num / den)
  unfold nearestUnits
  dsimp only
  rw [← hg]
  apply Nat.mul_le_mul_left
  apply roundHalfEven_mono (Nat.mul_pos hd hpos) (Nat.mul_pos hd' hpos)
  rw [← Nat.mul_assoc, ← Nat.mul_assoc]
  exact Nat.mul_le_mul_right _ h

/-- Rounding does not pass a power of two on the way up. -/
theorem nearestUnits_le_two_pow {num den k : Nat} (hd : 0 < den) (hlt : (num / den).log2 < k)
    (hk : 52 ≤ k) : nearestUnits num den ≤ 2 ^ k := by
  have hpos := granule_pos (num / den)
  have hnum : num < 2 ^ k * den := by
    rw [← Nat.div_lt_iff_lt_mul hd]
    exact Nat.lt_of_lt_of_le Nat.lt_log2_self (Nat.pow_le_pow_right (by decide) hlt)
  have hsplit : 2 ^ k = granule (num / den) * 2 ^ (k - ((num / den).log2 - 52)) := by
    rw [granule, ← Nat.pow_add]
    congr 1
    omega
  unfold nearestUnits
  dsimp only
  rw [hsplit]
  apply Nat.mul_le_mul_left
  have hd2 := Nat.mul_pos hd hpos
  rw [← roundHalfEven_exact (2 ^ (k - ((num / den).log2 - 52))) hd2]
  apply roundHalfEven_mono hd2 hd2
  apply Nat.mul_le_mul_right
  rw [Nat.mul_comm den, ← Nat.mul_assoc, Nat.mul_comm _ (granule (num / den)), ← hsplit]
  exact Nat.le_of_lt hnum

/-- Nor on the way down. -/
theorem two_pow_le_nearestUnits {num den : Nat} (hk : 52 ≤ (num / den).log2) :
    2 ^ (num / den).log2 ≤ nearestUnits num den := by
  have hne : num / den ≠ 0 := by
    intro h
    rw [h, Nat.log2_zero] at hk
    omega
  have hsplit : 2 ^ (num / den).log2 = granule (num / den) * 2 ^ 52 := by
    rw [granule, ← Nat.pow_add]
    congr 1
    omega
  unfold nearestUnits
  dsimp only
  rw [hsplit]
  apply Nat.mul_le_mul_left
  refine Nat.le_trans ?_ (div_le_roundHalfEven ..)
  rw [← Nat.div_div_eq_div_mul, Nat.le_div_iff_mul_le (granule_pos _), Nat.mul_comm, ← hsplit]
  exact Nat.log2_self_le hne

theorem nearestUnits_mono {num den num' den' : Nat} (hd : 0 < den) (hd' : 0 < den')
    (h : num * den' ≤ num' * den) : nearestUnits num den ≤ nearestUnits num' den' := by
  have hq : num / den ≤ num' / den' := by
    rw [Nat.le_div_iff_mul_le hd']
    apply Nat.le_of_mul_le_mul_right (c := den) _ hd
    calc num / den * den' * den = num / den * den * den' := Nat.mul_right_comm ..
      _ ≤ num * den' := Nat.mul_le_mul_right _ (Nat.div_mul_le_self num den)
      _ ≤ num' * den := h
  rcases Nat.lt_or_ge (num / den).log2 (num' / den').log2 with hlt | hge
  · obtain hfine | hcoarse := Nat.lt_or_ge (num' / den').log2 53
    · have he : granule (num / den) = granule (num' / den') := by
        unfold granule
        congr 1
        omega
      exact nearestUnits_mono_of_granule hd hd' h he
    · exact Nat.le_trans (nearestUnits_le_two_pow hd hlt (by omega))
        (two_pow_le_nearestUnits (by omega))
  · have hlog : (num / den).log2 ≤ (num' / den').log2 := by
      rcases Nat.eq_zero_or_pos (num / den) with h0 | h0
      · rw [h0, Nat.log2_zero]
        exact Nat.zero_le _
      · exact (Nat.le_log2 (by omega)).mpr (Nat.le_trans (Nat.log2_self_le (by omega)) hq)
    apply nearestUnits_mono_of_granule hd hd' h
    unfold granule
    congr 1
    omega
end BinomialLogit.Binary64
