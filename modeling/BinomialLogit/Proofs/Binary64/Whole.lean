import BinomialLogit.Proofs.Binary64.Nearest
import BinomialLogit.Proofs.Binary64.Value

/-! Rounding to whole numbers and counting keep order. Both are read off the place of a number, that
of an infinity being the limit, so one argument serves all numbers. A whole number of moderate size
is its own count and the rounding of whatever is closer to it than one half. -/

namespace BinomialLogit.Binary64
set_option autoImplicit false

/-- The nearest whole number of ones, in units. -/
def wholeUnits (units : ℕ) : ℕ := (2 * units + unitsInOne) / (2 * unitsInOne) * unitsInOne

def roundedPlace (units : ℕ) : ℕ := min (nearestUnits (wholeUnits units) 1) limit

def countAt (units : ℕ) : ℕ := min (units / unitsInOne) maxCount

theorem wholeUnits_mul (n : ℕ) : wholeUnits (n * unitsInOne) = n * unitsInOne := by
  have hU : 0 < unitsInOne := by exact_mod_cast unitsInOne_pos
  unfold wholeUnits
  congr 1
  have hsplit : 2 * (n * unitsInOne) + unitsInOne = unitsInOne + 2 * unitsInOne * n := by ring
  rw [hsplit, Nat.add_mul_div_left _ _ (by omega), Nat.div_eq_of_lt (by omega), Nat.zero_add]

theorem wholeUnits_mono {u v : ℕ} (h : u ≤ v) : wholeUnits u ≤ wholeUnits v :=
  Nat.mul_le_mul_right _ (Nat.div_le_div_right (by omega))

theorem limit_eq_mul : ∃ n, maxCount ≤ n ∧ limit = n * unitsInOne := by
  obtain ⟨k, hk, hlimit⟩ := limit_eq_two_pow
  obtain ⟨l, hl, hunits⟩ := unitsInOne_eq_two_pow
  refine ⟨2 ^ (k - l), ?_, by rw [hlimit, hunits, ← Nat.pow_add]; congr 1; omega⟩
  calc maxCount ≤ 2 ^ 64 := by decide
    _ ≤ 2 ^ (k - l) := Nat.pow_le_pow_right (by norm_num) (by omega)

theorem roundedPlace_mono {u v : ℕ} (h : u ≤ v) : roundedPlace u ≤ roundedPlace v := by
  have hround := nearestUnits_mono Nat.one_pos Nat.one_pos
    (Nat.mul_le_mul_right 1 (wholeUnits_mono h))
  unfold roundedPlace
  omega

theorem roundedPlace_limit : roundedPlace limit = limit := by
  obtain ⟨n, -, hn⟩ := limit_eq_mul
  have hwhole : wholeUnits limit = limit := by
    rw [hn]
    exact wholeUnits_mul n
  unfold roundedPlace
  rw [hwhole, nearestUnits_one granule_dvd_limit, Nat.min_self]

theorem roundedPlace_zero : roundedPlace 0 = 0 := by
  have hwhole := wholeUnits_mul 0
  rw [Nat.zero_mul] at hwhole
  unfold roundedPlace
  rw [hwhole, nearestUnits_one (Nat.dvd_zero _), Nat.zero_min]

theorem countAt_mono {u v : ℕ} (h : u ≤ v) : countAt u ≤ countAt v := by
  have hdiv : u / unitsInOne ≤ v / unitsInOne := Nat.div_le_div_right h
  unfold countAt
  omega

theorem countAt_zero : countAt 0 = 0 := by
  unfold countAt
  rw [Nat.zero_div, Nat.zero_min]

theorem countAt_limit : countAt limit = maxCount := by
  have hU : 0 < unitsInOne := by exact_mod_cast unitsInOne_pos
  obtain ⟨n, hle, hn⟩ := limit_eq_mul
  unfold countAt
  rw [hn, Nat.mul_div_cancel n hU, Nat.min_eq_right hle]

theorem round_finite (s : Bool) (u : ℕ) (hu : Representable u) :
    (finite s u hu).round = ofQuotient s (wholeUnits u) 1 := rfl

theorem toCount_finite (s : Bool) (u : ℕ) (hu : Representable u) :
    (finite s u hu).toCount = if s then 0 else countAt u := rfl

/-- What rounding and counting make of a number that is no NaN. -/
theorem exists_magnitude {x : Binary64} (hx : x ≠ nan) : ∃ s units,
    x.place = some (signed s units) ∧ x.round.place = some (signed s (roundedPlace units)) ∧
      x.toCount = if s then 0 else countAt units := by
  cases x with
  | nan => exact absurd rfl hx
  | finite s u hu => exact ⟨s, u, rfl, place_ofQuotient s (wholeUnits u) 1, rfl⟩
  | infinity s =>
    refine ⟨s, limit, rfl, ?_, ?_⟩
    · rw [roundedPlace_limit]
      rfl
    · rw [countAt_limit]
      rfl

/-- A change of magnitudes that keeps their order and fixes zero keeps the order of numbers. -/
theorem signed_le_signed {g : ℕ → ℕ} (hg : Monotone g) (h0 : g 0 = 0) {s t : Bool} {u v : ℕ}
    (h : signed s u ≤ signed t v) : signed s (g u) ≤ signed t (g v) := by
  cases s <;> cases t <;> simp only [signed_false, signed_true] at h ⊢
  · have hmono := hg (show u ≤ v by omega)
    omega
  · obtain rfl : u = 0 := by omega
    obtain rfl : v = 0 := by omega
    omega
  · omega
  · have hmono := hg (show v ≤ u by omega)
    omega

section Order
variable {x y : Binary64}

protected theorem round_mono (h : x ≤ y) : x.round ≤ y.round := by
  obtain ⟨s, u, hx, hxround, -⟩ := exists_magnitude (ne_nan_of_le_left h)
  obtain ⟨t, v, hy, hyround, -⟩ := exists_magnitude (ne_nan_of_le_right h)
  obtain ⟨a, b, ha, hb, hab⟩ := le_iff.mp h
  rw [hx] at ha
  rw [hy] at hb
  cases ha
  cases hb
  exact le_iff.mpr ⟨_, _, hxround, hyround,
    signed_le_signed (fun _ _ => roundedPlace_mono) roundedPlace_zero hab⟩

theorem toCount_mono (h : x ≤ y) : x.toCount ≤ y.toCount := by
  obtain ⟨s, u, hx, -, hxcount⟩ := exists_magnitude (ne_nan_of_le_left h)
  obtain ⟨t, v, hy, -, hycount⟩ := exists_magnitude (ne_nan_of_le_right h)
  obtain ⟨a, b, ha, hb, hab⟩ := le_iff.mp h
  rw [hx] at ha
  rw [hy] at hb
  cases ha
  cases hb
  have hcount := signed_le_signed (fun _ _ => countAt_mono) countAt_zero hab
  rw [hxcount, hycount]
  cases s with
  | true => exact Nat.zero_le _
  | false =>
    cases t with
    | false =>
      rw [signed_false, signed_false] at hcount
      exact_mod_cast hcount
    | true =>
      rw [signed_false, signed_true] at hcount
      change countAt u ≤ 0
      generalize countAt u = c at hcount ⊢
      generalize countAt v = d at hcount
      omega

end Order

protected theorem round_ofNat {n : ℕ} (h : n < 2 ^ 53) : (ofNat n).round = ofNat n := by
  rw [ofNat_eq_finite h, round_finite, wholeUnits_mul,
    ofQuotient_one false (representable_mul_unitsInOne h)]

/-- What is closer than one half to a whole number is rounded to it. -/
theorem wholeUnits_of_close {u n : ℕ} (h : |(u : ℚ) / unitsInOne - n| < 1 / 2) :
    wholeUnits u = n * unitsInOne := by
  have hU := unitsInOne_pos
  obtain ⟨hlow, hhigh⟩ := abs_lt.mp h
  have hbelow : (n : ℚ) - 1 / 2 ≤ u / unitsInOne := by linarith
  have habove : (u : ℚ) / unitsInOne < n + 1 / 2 := by linarith
  rw [le_div_iff₀ hU] at hbelow
  rw [div_lt_iff₀ hU] at habove
  have hle : n * (2 * unitsInOne) ≤ 2 * u + unitsInOne := by
    have hcast : (n : ℚ) * (2 * unitsInOne) ≤ 2 * u + unitsInOne := by linarith
    exact_mod_cast hcast
  have hlt : 2 * u + unitsInOne < (n + 1) * (2 * unitsInOne) := by
    have hcast : (2 : ℚ) * u + unitsInOne < (n + 1) * (2 * unitsInOne) := by linarith
    exact_mod_cast hcast
  unfold wholeUnits
  rw [Nat.div_eq_of_lt_le hle hlt]

theorem round_of_close {x : Binary64} {n : ℕ} (hx : x.IsFinite) (hn : n < 2 ^ 53)
    (h : |x.value - n| < 1 / 2) : x.round.IsFinite ∧ x.round.value = n := by
  obtain ⟨s, u, hu, rfl⟩ := hx
  rw [value_finite] at h
  cases s with
  | false =>
    rw [round_finite, wholeUnits_of_close h, ofQuotient_one false (representable_mul_unitsInOne hn),
      ← ofNat_eq_finite hn]
    exact ⟨isFinite_ofNat hn, value_ofNat hn⟩
  | true =>
    have hmagnitude : (0 : ℚ) ≤ u / unitsInOne :=
      div_nonneg (Nat.cast_nonneg u) unitsInOne_pos.le
    rw [signed_true, Int.cast_neg, Int.cast_natCast, neg_div] at h
    obtain ⟨hlow, -⟩ := abs_lt.mp h
    have hn0 : n = 0 := by
      by_contra hne
      have hone : (1 : ℚ) ≤ n := by exact_mod_cast Nat.one_le_iff_ne_zero.mpr hne
      linarith
    subst hn0
    rw [Nat.cast_zero, sub_zero, abs_neg] at h
    rw [round_finite, wholeUnits_of_close (n := 0) (by rwa [Nat.cast_zero, sub_zero]), Nat.zero_mul,
      ofQuotient_one true representable_zero]
    exact ⟨isFinite_zero true, by rw [Nat.cast_zero]; exact value_zero true⟩

theorem countAt_mul {n : ℕ} (h : n ≤ maxCount) : countAt (n * unitsInOne) = n := by
  have hU : 0 < unitsInOne := by exact_mod_cast unitsInOne_pos
  unfold countAt
  rw [Nat.mul_div_cancel n hU, Nat.min_eq_left h]

theorem toCount_ofNat {n : ℕ} (h : n < 2 ^ 53) : (ofNat n).toCount = n := by
  have hmax : 2 ^ 53 ≤ maxCount := by decide
  rw [ofNat_eq_finite h, toCount_finite, if_neg Bool.false_ne_true]
  exact countAt_mul (h.le.trans hmax)

end BinomialLogit.Binary64
