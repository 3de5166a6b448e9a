import BinomialLogit.Binary64.Basic

/-! Rounding of an exact quotient to the nearest representable magnitude, a half going to the
even neighbour. The spacing is read off the integer part of the quotient, so one division decides
the result, and `nearestUnits_representable` says that it needs no second rounding. -/

namespace BinomialLogit.Binary64
set_option autoImplicit false
attribute [local instance (2000)] instPowNat

/-- The integer nearest to `num / den`; of two equally near ones the even one. -/
def roundHalfEven (num den : Nat) : Nat :=
  let quotient := num / den
  let rest := num % den
  if den < 2 * rest ∨ (den = 2 * rest ∧ quotient % 2 = 1) then quotient + 1 else quotient

/-- The representable magnitude nearest to `num / den` units, were there no upper limit. -/
def nearestUnits (num den : Nat) : Nat :=
  let spacing := granule (num / den)
  spacing * roundHalfEven num (den * spacing)

theorem div_le_roundHalfEven (num den : Nat) : num / den ≤ roundHalfEven num den := by
  unfold roundHalfEven
  dsimp only
  split <;> omega

theorem roundHalfEven_le (num den : Nat) : roundHalfEven num den ≤ num / den + 1 := by
  unfold roundHalfEven
  dsimp only
  split <;> omega

private theorem granule_two_pow_mul {places k : Nat} (hk : k ≤ 2 ^ (53 : Nat))
    (hlow : places = 0 ∨ 2 ^ (52 : Nat) ≤ k) : granule (2 ^ places * k) ∣ 2 ^ places * k := by
  rcases Nat.eq_zero_or_pos k with rfl | hpos
  · simp
  rcases Nat.lt_or_eq_of_le hk with hlt | rfl
  · have hne : 2 ^ places * k ≠ 0 := Nat.ne_of_gt (Nat.mul_pos (Nat.two_pow_pos _) hpos)
    have hlog : (2 ^ places * k).log2 < places + 53 := by
      rw [Nat.log2_lt hne, Nat.pow_add]
      exact Nat.mul_lt_mul_of_pos_left hlt (Nat.two_pow_pos _)
    exact Nat.dvd_mul_right_of_dvd (Nat.pow_dvd_pow 2 (by omega)) k
  · have hlog : (2 ^ places * 2 ^ 53).log2 = places + 53 := by
      rw [← Nat.pow_add, Nat.log2_two_pow]
    rw [granule, hlog, ← Nat.pow_add]
    exact Nat.pow_dvd_pow 2 (by omega)

theorem nearestUnits_representable {num den : Nat} (hlt : nearestUnits num den < limit) :
    Representable (nearestUnits num den) := by
  refine ⟨hlt, ?_⟩
  clear hlt
  have hdiv : num / (den * granule (num / den)) = num / den / granule (num / den) :=
    (Nat.div_div_eq_div_mul _ _ _).symm
  have hle := roundHalfEven_le num (den * granule (num / den))
  have hge := div_le_roundHalfEven num (den * granule (num / den))
  rw [hdiv] at hle hge
  unfold nearestUnits
  dsimp only
  generalize roundHalfEven num (den * granule (num / den)) = k at hle hge
  generalize num / den = q at hle hge
  unfold granule at hle hge
  change granule (granule q * k) ∣ granule q * k
  rw [show granule q = 2 ^ (q.log2 - 52) from rfl]
  have hq : q < 2 ^ (q.log2 + 1) := Nat.lt_log2_self
  apply granule_two_pow_mul
  · have : q / 2 ^ (q.log2 - 52) < 2 ^ 53 := by
      rw [Nat.div_lt_iff_lt_mul (Nat.two_pow_pos _), ← Nat.pow_add]
      exact Nat.lt_of_lt_of_le hq (Nat.pow_le_pow_right (by decide) (by omega))
    omega
  · rcases Nat.lt_or_ge q.log2 52 with h | h
    · exact .inl (by omega)
    · refine .inr (Nat.le_trans ?_ hge)
      rw [Nat.le_div_iff_mul_le (Nat.two_pow_pos _), ← Nat.pow_add]
      have hne : q ≠ 0 := by
        rintro rfl
        simp at h
      refine Nat.le_trans (Nat.pow_le_pow_right (by decide) ?_) (Nat.log2_self_le hne)
      omega

/-- The double nearest to `num / den` units with the given sign; from the limit on it is
infinite. -/
def ofQuotient (negative : Bool) (num den : Nat) : Binary64 :=
  if h : nearestUnits num den < limit then
    finite negative (nearestUnits num den) (nearestUnits_representable h)
  else infinity negative

theorem place_ofQuotient (negative : Bool) (num den : Nat) :
    (ofQuotient negative num den).place =
      some (signed negative (min (nearestUnits num den) limit)) := by
  unfold ofQuotient
  split
  · rename_i h
    rw [Nat.min_eq_left (Nat.le_of_lt h)]
    rfl
  · rename_i h
    rw [Nat.min_eq_right (Nat.le_of_not_lt h)]
    rfl

theorem nearestUnits_one {units : Nat} (h : granule units ∣ units) :
    nearestUnits units 1 = units := by
  obtain ⟨k, hk⟩ := h
  have hpos := granule_pos units
  unfold nearestUnits roundHalfEven
  simp only [Nat.div_one, Nat.one_mul]
  have hmod : units % granule units = 0 := Nat.mod_eq_zero_of_dvd ⟨k, hk⟩
  rw [hmod, if_neg (by omega)]
  exact Nat.mul_div_cancel' ⟨k, hk⟩

theorem ofQuotient_one (negative : Bool) {units : Nat} (h : Representable units) :
    ofQuotient negative units 1 = finite negative units h := by
  have he := nearestUnits_one h.2
  unfold ofQuotient
  simp only [he, h.1, dif_pos]

end BinomialLogit.Binary64
