import BinomialLogit.Proofs.Binary64.Rounds

/-! Operations at the edges of the finite doubles: which of them give NaN or infinity and which stay
finite or are exact. -/

namespace BinomialLogit.Binary64
set_option autoImplicit false

variable {x y z : Binary64}

theorem eq_infinity_or_isFinite (hx : x.IsFinite) (h : x ≤ z) :
    z = infinity false ∨ z.IsFinite := by
  cases z with
  | nan => exact absurd rfl (ne_nan_of_le_right h)
  | finite s u hu => exact .inr (isFinite_finite s u hu)
  | infinity s =>
    cases s with
    | false => exact .inl rfl
    | true => exact absurd h (Binary64.not_le_of_lt hx.infinity_lt)

theorem units_ne_zero {s : Bool} {u : ℕ} {hu : Representable u} (h0 : (finite s u hu).value ≠ 0) :
    u ≠ 0 := by
  rintro rfl
  exact h0 (by cases s <;> simp [value_finite])

theorem units_eq_zero {s : Bool} {u : ℕ} {hu : Representable u}
    (h0 : (finite s u hu).value = 0) : u = 0 := by
  rw [value_finite, div_eq_zero_iff] at h0
  have hsigned : signed s u = 0 := by exact_mod_cast h0.resolve_right unitsInOne_pos.ne'
  cases s <;> simpa using hsigned

theorem eq_zero_of_value {x : Binary64} (hx : x.IsFinite) (h0 : x.value = 0) :
    ∃ s, x = zero s := by
  obtain ⟨s, u, hu, rfl⟩ := hx
  obtain rfl := units_eq_zero h0
  exact ⟨s, rfl⟩

theorem ofQuotient_ne_nan (s : Bool) (num den : ℕ) : ofQuotient s num den ≠ nan := by
  intro h
  unfold ofQuotient at h
  split at h <;> cases h

/-- Only the product of a zero and an infinity is a new NaN. -/
theorem mul_ne_nan (hx : x.IsFinite) (h0 : x.value ≠ 0) (hy : y ≠ nan) : x * y ≠ nan := by
  obtain ⟨s, u, hu, rfl⟩ := hx
  cases y with
  | nan => exact absurd rfl hy
  | finite t v hv =>
    rw [finite_mul_finite]
    exact ofQuotient_ne_nan _ _ _
  | infinity t =>
    change (if u = 0 then nan else infinity (s ^^ t)) ≠ nan
    rw [if_neg (units_ne_zero h0)]
    nofun

/-- Only infinities add up to a new NaN. -/
theorem add_ne_nan (hx : x ≠ nan) (hy : y.IsFinite) : x + y ≠ nan := by
  obtain ⟨t, v, hv, rfl⟩ := hy
  cases x with
  | nan => exact absurd rfl hx
  | infinity s => nofun
  | finite s u hu =>
    rw [finite_add_finite]
    split
    · nofun
    · exact ofQuotient_ne_nan _ _ _

theorem mul_infinity (hx : x.IsFinite) (hpos : 0 < x.value) :
    x * infinity false = infinity false := by
  obtain ⟨s, u, hu, rfl⟩ := hx
  change (if u = 0 then nan else infinity (s ^^ false)) = _
  rw [if_neg (units_ne_zero hpos.ne')]
  cases s with
  | false => rfl
  | true =>
    have hnonneg : (0 : ℚ) ≤ (u : ℤ) / unitsInOne := div_nonneg (by simp) unitsInOne_pos.le
    rw [value_finite, signed_true, Int.cast_neg, neg_div] at hpos
    exact absurd hpos (by linarith)

theorem zero_mul_infinity (hx : x.IsFinite) (h0 : x.value = 0) : x * infinity false = nan := by
  obtain ⟨s, u, hu, rfl⟩ := hx
  exact if_pos (units_eq_zero h0)

theorem infinity_add (hy : y.IsFinite) : infinity false + y = infinity false := by
  obtain ⟨t, v, hv, rfl⟩ := hy
  rfl

theorem isFinite_part (hx : x.IsFinite) (h0 : 0 ≤ x.value) (h1 : x.value ≤ 1) (hy : y.IsFinite) :
    (x * y).IsFinite := by
  refine ((rounds_mul hx hy).abs_value_le (isValue_value y).abs ?_).1
  rw [abs_mul, abs_of_nonneg h0]
  exact mul_le_of_le_one_left (abs_nonneg _) h1

theorem granule_two_mul_dvd {u : ℕ} (h : granule u ∣ u) : granule (2 * u) ∣ 2 * u := by
  rcases Nat.eq_zero_or_pos u with rfl | hpos
  · simp
  unfold granule at h ⊢
  rw [Nat.log2_two_mul hpos.ne']
  rcases Nat.lt_or_ge u.log2 52 with hlow | hhigh
  · rw [show u.log2 + 1 - 52 = 0 by omega, Nat.pow_zero]
    exact Nat.one_dvd _
  · rw [show u.log2 + 1 - 52 = u.log2 - 52 + 1 by omega, Nat.pow_succ']
    exact Nat.mul_dvd_mul_left 2 h

theorem IsValue.two_mul {q : ℚ} (h : IsValue q) (h0 : 0 ≤ q) (hq : q ≤ 2 ^ 1022) :
    IsValue (2 * q) := by
  have hU := unitsInOne_pos
  obtain ⟨u, hu, rfl⟩ := h.exists_units h0
  have hlimit : (2 : ℚ) * 2 ^ 1022 * unitsInOne < limit := by
    rw [limit_eq, ← pow_succ', ← zpow_natCast]
    exact mul_lt_mul_of_pos_right (zpow_lt_zpow_right₀ (by norm_num) (by norm_num)) hU
  rw [div_le_iff₀ hU] at hq
  generalize (2 : ℚ) ^ 1022 = bound at hq hlimit
  have hlt : 2 * u < limit := by
    have hcast : ((2 * u : ℕ) : ℚ) < limit := by
      push_cast
      linarith
    exact_mod_cast hcast
  have hrep : Representable (2 * u) := ⟨hlt, granule_two_mul_dvd hu.2⟩
  refine ⟨finite false (2 * u) hrep, isFinite_finite _ _ _, ?_⟩
  rw [value_finite, signed_false]
  push_cast
  ring

theorem value_two_mul (hx : x.IsFinite) (hbound : |x.value| ≤ 2 ^ 1022) :
    (2 * x).IsFinite ∧ (2 * x).value = 2 * x.value := by
  have hround := rounds_mul isFinite_two hx
  rw [value_two] at hround
  refine hround.eq_of_isValue ?_
  have hdouble := (isValue_value x).abs.two_mul (abs_nonneg _) hbound
  rcases abs_choice x.value with heq | heq
  · rwa [heq] at hdouble
  · rw [heq, mul_neg] at hdouble
    simpa using hdouble.neg

end BinomialLogit.Binary64
