import BinomialLogit.Proofs.Binary64.Nearest
import BinomialLogit.Proofs.Binary64.Value

/-! The operations as roundings of their exact results. A rounding passes no value of a double on
either side, takes the nearest one, and is finite below the last middle; what is shown of a
computation follows from this by comparing exact results with values. -/

namespace BinomialLogit.Binary64
set_option autoImplicit false

/-- The double is the rounding of the number. A zero may have either sign. -/
inductive Rounds : ℚ → Binary64 → Prop
  | ofQuotient (s : Bool) (num den : ℕ) (hd : 0 < den) :
    Rounds ((signed s num : ℚ) / (den * unitsInOne)) (ofQuotient s num den)

namespace Rounds
variable {q : ℚ} {z : Binary64}

theorem neg (h : Rounds q z) : Rounds (-q) (-z) := by
  obtain ⟨s, num, den, hd⟩ := h
  have hq : -((signed s num : ℚ) / (den * unitsInOne)) =
      (signed (!s) num : ℚ) / (den * unitsInOne) := by
    cases s <;> simp [neg_div]
  have hz : -(Binary64.ofQuotient s num den) = Binary64.ofQuotient (!s) num den := by
    unfold Binary64.ofQuotient
    split <;> rfl
  rw [hq, hz]
  exact .ofQuotient (!s) num den hd

private theorem min_nearestUnits_le {num den v : ℕ} (hd : 0 < den) (hv : Representable v)
    (h : num ≤ v * den) : min (nearestUnits num den) limit ≤ v := by
  refine Nat.le_trans (Nat.min_le_left _ _) ?_
  calc nearestUnits num den ≤ nearestUnits v 1 :=
        nearestUnits_mono hd Nat.one_pos (by omega)
    _ = v := nearestUnits_one hv.2

private theorem le_min_nearestUnits {num den v : ℕ} (hd : 0 < den) (hv : Representable v)
    (h : v * den ≤ num) : v ≤ min (nearestUnits num den) limit := by
  refine Nat.le_min.mpr ⟨?_, Nat.le_of_lt hv.1⟩
  calc v = nearestUnits v 1 := (nearestUnits_one hv.2).symm
    _ ≤ nearestUnits num den := nearestUnits_mono Nat.one_pos hd (by omega)

/-- A double at or above the exact result is at or above the rounding. -/
theorem le (h : Rounds q z) {b : Binary64} (hb : b.IsFinite) (hq : q ≤ b.value) : z ≤ b := by
  obtain ⟨s, num, den, hd⟩ := h
  obtain ⟨t, v, hv, rfl⟩ := hb
  have hden : (0 : ℚ) < den := by exact_mod_cast hd
  refine le_iff.mpr ⟨_, _, place_ofQuotient s num den, rfl, ?_⟩
  rw [value_finite, ← div_div, div_le_div_iff_of_pos_right unitsInOne_pos,
    div_le_iff₀ hden] at hq
  have hz : signed s num ≤ signed t v * den := by exact_mod_cast hq
  cases s <;> cases t <;> simp only [signed_false, signed_true] at hz ⊢
  · have hmin := min_nearestUnits_le hd hv (by exact_mod_cast hz)
    exact_mod_cast hmin
  · have hnum : num ≤ 0 * den := by
      have : (0 : ℤ) ≤ v * den := by positivity
      have : (num : ℤ) ≤ 0 := by linarith [neg_mul (v : ℤ) den]
      omega
    have hv0 : v = 0 := by
      by_contra hne
      have : (0 : ℤ) < v * den := by positivity
      have : (num : ℤ) < 0 := by linarith [neg_mul (v : ℤ) den]
      omega
    have hmin := min_nearestUnits_le hd representable_zero hnum
    omega
  · omega
  · have hle : v * den ≤ num := by
      zify
      linarith [neg_mul (v : ℤ) den]
    have hmin := le_min_nearestUnits hd hv hle
    omega

theorem ge (h : Rounds q z) {b : Binary64} (hb : b.IsFinite) (hq : b.value ≤ q) : b ≤ z := by
  have hneg : -z ≤ -b := h.neg.le (isFinite_neg hb) (by rw [value_neg]; linarith)
  obtain ⟨c, d, hc, hd, hcd⟩ := le_iff.mp hneg
  rw [place_neg, Option.map_eq_some_iff] at hc hd
  obtain ⟨p, hp, rfl⟩ := hc
  obtain ⟨r, hr, rfl⟩ := hd
  exact le_iff.mpr ⟨r, p, hr, hp, by omega⟩

theorem value_le (h : Rounds q z) (hz : z.IsFinite) {b : ℚ} (hb : IsValue b) (hq : q ≤ b) :
    z.value ≤ b := by
  obtain ⟨y, hy, rfl⟩ := hb
  exact (le_iff_value_le hz hy).mp (h.le hy hq)

theorem le_value (h : Rounds q z) (hz : z.IsFinite) {b : ℚ} (hb : IsValue b) (hq : b ≤ q) :
    b ≤ z.value := by
  obtain ⟨y, hy, rfl⟩ := hb
  exact (le_iff_value_le hy hz).mp (h.ge hy hq)

theorem between (h : Rounds q z) {a b : ℚ} (ha : IsValue a) (hb : IsValue b) (haq : a ≤ q)
    (hqb : q ≤ b) : z.IsFinite ∧ a ≤ z.value ∧ z.value ≤ b := by
  obtain ⟨x, hx, rfl⟩ := ha
  obtain ⟨y, hy, rfl⟩ := hb
  have hxz := h.ge hx haq
  have hzy := h.le hy hqb
  have hz := isFinite_of_le_of_le hx hy hxz hzy
  exact ⟨hz, (le_iff_value_le hx hz).mp hxz, (le_iff_value_le hz hy).mp hzy⟩

theorem eq_of_isValue (h : Rounds q z) (hq : IsValue q) : z.IsFinite ∧ z.value = q := by
  obtain ⟨hz, hle, hge⟩ := h.between hq hq le_rfl le_rfl
  exact ⟨hz, le_antisymm hge hle⟩

theorem abs_value_le (h : Rounds q z) {b : ℚ} (hb : IsValue b) (hq : |q| ≤ b) :
    z.IsFinite ∧ |z.value| ≤ b := by
  have hq' := abs_le.mp hq
  obtain ⟨hz, hle, hge⟩ := h.between hb.neg hb hq'.1 hq'.2
  exact ⟨hz, abs_le.mpr ⟨hle, hge⟩⟩

theorem lastMiddle_eq :
    (2 : ℚ) ^ (1024 : ℤ) - 2 ^ (970 : ℤ) = (2 ^ 54 - 1) / 2 ^ 54 * 2 ^ (1024 : ℤ) := by
  rw [show (1024 : ℤ) = 970 + 54 by norm_num, zpow_add₀ (by norm_num)]
  generalize (2 : ℚ) ^ (970 : ℤ) = p
  norm_num
  ring

/-- Below the middle between the greatest double and the limit the rounding is finite. -/
theorem isFinite (h : Rounds q z) (hq : |q| < 2 ^ (1024 : ℤ) - 2 ^ (970 : ℤ)) : z.IsFinite := by
  obtain ⟨s, num, den, hd⟩ := h
  have hden : (0 : ℚ) < den := by exact_mod_cast hd
  have habs : |(signed s num : ℚ)| = num := by
    cases s <;> simp
  rw [abs_div, habs, abs_of_pos (mul_pos hden unitsInOne_pos), lastMiddle_eq,
    div_lt_iff₀ (mul_pos hden unitsInOne_pos)] at hq
  have hlt : num * 2 ^ 54 < (2 ^ 54 - 1) * (limit * den) := by
    have : (num : ℚ) * 2 ^ 54 < 18014398509481983 * (limit * den) := by
      rw [limit_eq]
      linarith
    exact_mod_cast this
  unfold Binary64.ofQuotient
  rw [dif_pos (nearestUnits_lt_limit hd hlt)]
  exact isFinite_finite _ _ _

theorem value_sub (s : Bool) (num : ℕ) {den : ℕ} (hd : 0 < den)
    (hz : (Binary64.ofQuotient s num den).IsFinite) :
    |(Binary64.ofQuotient s num den).value - (signed s num : ℚ) / (den * unitsInOne)| =
      |(nearestUnits num den : ℚ) - num / den| / unitsInOne := by
  have hden : (0 : ℚ) < den := by exact_mod_cast hd
  have hval : (Binary64.ofQuotient s num den).value =
      (signed s (nearestUnits num den) : ℚ) / unitsInOne := by
    unfold Binary64.ofQuotient at hz ⊢
    split
    · rfl
    · rename_i hge
      rw [dif_neg hge] at hz
      exact absurd hz (not_isFinite_infinity s)
  rw [hval, ← div_div, ← sub_div, abs_div, abs_of_pos unitsInOne_pos]
  congr 1
  cases s with
  | false => rfl
  | true =>
    simp only [signed_true]
    push_cast
    rw [← abs_neg]
    congr 1
    ring

/-- The rounding is nearest: no double's value is closer to the exact result. -/
theorem abs_sub_le (h : Rounds q z) (hz : z.IsFinite) {b : ℚ} (hb : IsValue b) :
    |z.value - q| ≤ |b - q| := by
  obtain ⟨y, ⟨t, v, hv, rfl⟩, rfl⟩ := hb
  obtain ⟨s, num, den, hd⟩ := h
  have hden : (0 : ℚ) < den := by exact_mod_cast hd
  have hnear := nearestUnits_nearest num hd hv.2
  have hzero := nearestUnits_nearest (v := 0) num hd (Nat.dvd_zero _)
  rw [value_sub s num hd hz, value_finite, ← div_div, ← sub_div, abs_div,
    abs_of_pos unitsInOne_pos, div_le_div_iff_of_pos_right unitsInOne_pos]
  have hquot : (0 : ℚ) ≤ num / den := by positivity
  have hv0 : (0 : ℚ) ≤ v := by positivity
  rw [Nat.cast_zero, zero_sub, abs_neg, abs_of_nonneg hquot] at hzero
  have hfar : |(num : ℚ) / den| ≤ |(v : ℚ) + num / den| := by
    rw [abs_of_nonneg hquot, abs_of_nonneg (by linarith)]
    linarith
  have hcross : |(nearestUnits num den : ℚ) - num / den| ≤ |(v : ℚ) + num / den| :=
    hzero.trans (by rwa [abs_of_nonneg hquot] at hfar)
  cases s <;> cases t <;> simp only [signed_false, signed_true] <;> push_cast
  · exact hnear
  · rwa [← neg_add', abs_neg]
  · rwa [neg_div, sub_neg_eq_add]
  · rw [neg_div, sub_neg_eq_add, neg_add_eq_sub, abs_sub_comm _ (v : ℚ)]
    exact hnear

/-- Rounding keeps the order, whether or not the results are finite. -/
protected theorem mono (h : Rounds q z) {q' : ℚ} {z' : Binary64} (h' : Rounds q' z')
    (hq : q ≤ q') : z ≤ z' := by
  obtain ⟨s, num, den, hd⟩ := h
  obtain ⟨t, num', den', hd'⟩ := h'
  have hden : (0 : ℚ) < den := by exact_mod_cast hd
  have hden' : (0 : ℚ) < den' := by exact_mod_cast hd'
  refine le_iff.mpr ⟨_, _, place_ofQuotient s num den, place_ofQuotient t num' den', ?_⟩
  rw [← div_div, ← div_div, div_le_div_iff_of_pos_right unitsInOne_pos,
    div_le_div_iff₀ hden hden'] at hq
  have hcross : signed s num * den' ≤ signed t num' * den := by exact_mod_cast hq
  have hnum : (0 : ℤ) ≤ num * den' := by positivity
  have hnum' : (0 : ℤ) ≤ num' * den := by positivity
  cases s <;> cases t <;> simp only [signed_false, signed_true, neg_mul] at hcross ⊢
  · have hmono := nearestUnits_mono hd hd' (by exact_mod_cast hcross)
    omega
  · have hprod : num * den' = 0 := by
      zify
      omega
    have hprod' : num' * den = 0 := by
      zify
      omega
    obtain rfl : num = 0 := (Nat.mul_eq_zero.mp hprod).resolve_right hd'.ne'
    obtain rfl : num' = 0 := (Nat.mul_eq_zero.mp hprod').resolve_right hd.ne'
    have hmin := min_nearestUnits_le hd representable_zero (Nat.zero_le _)
    have hmin' := min_nearestUnits_le hd' representable_zero (Nat.zero_le _)
    omega
  · omega
  · have hle : num' * den ≤ num * den' := by
      zify
      omega
    have hmono := nearestUnits_mono hd' hd hle
    omega

theorem value_le_value (h : Rounds q z) (hz : z.IsFinite) {q' : ℚ} {z' : Binary64}
    (h' : Rounds q' z') (hz' : z'.IsFinite) (hq : q ≤ q') : z.value ≤ z'.value :=
  (le_iff_value_le hz hz').mp (h.mono h' hq)

theorem abs_sub_le_max (h : Rounds q z) (hz : z.IsFinite) :
    |z.value - q| ≤ max (|q| / 2 ^ 53) (1 / 2 ^ (1075 : ℤ)) := by
  obtain ⟨s, num, den, hd⟩ := h
  have hden : (0 : ℚ) < den := by exact_mod_cast hd
  have hU := unitsInOne_pos
  have habs : |(signed s num : ℚ)| = num := by
    cases s <;> simp
  have hhalf : (1 : ℚ) / 2 ^ (1075 : ℤ) = 1 / 2 / unitsInOne := by
    rw [unitsInOne_eq, show (1075 : ℤ) = 1074 + 1 by norm_num, zpow_add_one₀ (by norm_num)]
    generalize (2 : ℚ) ^ (1074 : ℤ) = p
    rw [div_div, mul_comm]
  have hsplit : |(signed s num : ℚ) / (den * unitsInOne)| / 2 ^ 53 =
      (num : ℚ) / den / 2 ^ 53 / unitsInOne := by
    rw [abs_div, habs, abs_of_pos (mul_pos hden hU)]
    field_simp
  rw [value_sub s num hd hz, hhalf, hsplit, max_div_div_right hU.le,
    div_le_div_iff_of_pos_right hU]
  exact abs_nearestUnits_sub_le_max num hd

theorem half_unit_lt {n : ℕ} (hn : n < 1075) : (1 : ℚ) / 2 ^ (1075 : ℤ) < 1 / 2 ^ n := by
  rw [← zpow_natCast (2 : ℚ) n]
  exact one_div_lt_one_div_of_lt (zpow_pos (by norm_num) _)
    (zpow_lt_zpow_right₀ (by norm_num) (by exact_mod_cast hn))

theorem unit_error (h : Rounds q z) (hq : |q| ≤ 1) : z.IsFinite ∧ |z.value - q| ≤ 1 / 2 ^ 53 := by
  have hz := (h.abs_value_le isValue_one hq).1
  refine ⟨hz, (h.abs_sub_le_max hz).trans (max_le ?_ ?_)⟩
  · exact div_le_div_of_nonneg_right hq (by positivity)
  · exact (half_unit_lt (by norm_num)).le

/-- From one on the rounding exceeds the exact result by at most one part in 2^53. -/
theorem value_le_mul (h : Rounds q z) (hz : z.IsFinite) (hq : 1 ≤ q) :
    z.value ≤ q * (1 + 1 / 2 ^ 53) := by
  have herror := (abs_le.mp (h.abs_sub_le_max hz)).2
  rw [abs_of_pos (by linarith), max_eq_left] at herror
  · linarith
  · exact (half_unit_lt (by norm_num)).le.trans (div_le_div_of_nonneg_right hq (by positivity))

/-- Away from both ends of the range the error is at most one part in 2^53. -/
theorem relative_error (h : Rounds q z) (hlow : 1 / 2 ^ 200 ≤ |q|) (hhigh : |q| ≤ 2 ^ 200) :
    z.IsFinite ∧ |z.value - q| ≤ |q| / 2 ^ 53 := by
  have hz := (h.abs_value_le (isValue_two_pow (by norm_num)) hhigh).1
  refine ⟨hz, (h.abs_sub_le_max hz).trans (max_le le_rfl ?_)⟩
  have hsplit : (1 : ℚ) / 2 ^ 253 = 1 / 2 ^ 200 / 2 ^ 53 := by norm_num
  have htiny := (half_unit_lt (n := 253) (by norm_num)).le
  rw [hsplit] at htiny
  exact htiny.trans (div_le_div_of_nonneg_right hlow (by positivity))

end Rounds

section Operations
variable {x y : Binary64}

theorem rounds_zero (s : Bool) : Rounds 0 (zero s) := by
  have h := Rounds.ofQuotient s 0 1 Nat.one_pos
  rw [ofQuotient_one s representable_zero] at h
  have h0 : (signed s 0 : ℚ) / ((1 : ℕ) * unitsInOne) = 0 := by
    cases s <;> simp
  rwa [h0] at h

theorem rounds_add (hx : x.IsFinite) (hy : y.IsFinite) : Rounds (x.value + y.value) (x + y) := by
  obtain ⟨s, u, hu, rfl⟩ := hx
  obtain ⟨t, v, hv, rfl⟩ := hy
  rw [value_finite, value_finite, ← add_div, ← Int.cast_add, finite_add_finite]
  generalize signed s u + signed t v = total
  split
  · rename_i h0
    rw [h0, Int.cast_zero, zero_div]
    exact rounds_zero _
  · have h := Rounds.ofQuotient (decide (total < 0)) total.natAbs 1 Nat.one_pos
    have hsigned : signed (decide (total < 0)) total.natAbs = total := by
      unfold signed
      simp only [decide_eq_true_eq]
      split <;> omega
    rwa [hsigned, Nat.cast_one, one_mul] at h

theorem rounds_sub (hx : x.IsFinite) (hy : y.IsFinite) : Rounds (x.value - y.value) (x - y) := by
  have h := rounds_add hx (isFinite_neg hy)
  rwa [value_neg, ← sub_eq_add_neg] at h

theorem rounds_one_add (hx : x.IsFinite) : Rounds (1 + x.value) (1 + x) := by
  have h := rounds_add isFinite_one hx
  rwa [value_one] at h

theorem rounds_one_sub (hx : x.IsFinite) : Rounds (1 - x.value) (1 - x) := by
  have h := rounds_sub isFinite_one hx
  rwa [value_one] at h

theorem signed_xor_mul (s t : Bool) (u v : ℕ) :
    signed (s ^^ t) (u * v) = signed s u * signed t v := by
  cases s <;> cases t <;> simp

theorem rounds_mul (hx : x.IsFinite) (hy : y.IsFinite) : Rounds (x.value * y.value) (x * y) := by
  obtain ⟨s, u, hu, rfl⟩ := hx
  obtain ⟨t, v, hv, rfl⟩ := hy
  have hU := unitsInOne_pos
  have h := Rounds.ofQuotient (s ^^ t) (u * v) unitsInOne (by exact_mod_cast hU)
  rwa [signed_xor_mul, Int.cast_mul, mul_div_mul_comm, ← finite_mul_finite] at h

theorem signed_mul (s : Bool) (u v : ℕ) : signed s (u * v) = signed s u * v := by
  cases s <;> simp

theorem signed_xor_div (s t : Bool) (u v : ℕ) :
    (signed (s ^^ t) u : ℚ) / v = (signed s u : ℚ) / signed t v := by
  cases s <;> cases t <;> simp [neg_div, div_neg]

theorem rounds_div (hx : x.IsFinite) (hy : y.IsFinite) (hne : y.value ≠ 0) :
    Rounds (x.value / y.value) (x / y) := by
  obtain ⟨s, u, hu, rfl⟩ := hx
  obtain ⟨t, v, hv, rfl⟩ := hy
  have hU := unitsInOne_pos
  have hv0 : v ≠ 0 := by
    rintro rfl
    apply hne
    cases t <;> simp [value_finite]
  rw [finite_div_finite hv0]
  have h := Rounds.ofQuotient (s ^^ t) (u * unitsInOne) v (Nat.pos_of_ne_zero hv0)
  rwa [signed_mul, Int.cast_mul, Int.cast_natCast, mul_div_mul_right _ _ hU.ne', signed_xor_div,
    ← div_div_div_cancel_right₀ hU.ne'] at h

end Operations

theorem IsValue.exists_units {q : ℚ} (h : IsValue q) (h0 : 0 ≤ q) :
    ∃ u : ℕ, Representable u ∧ q = u / unitsInOne := by
  obtain ⟨_, ⟨s, u, hu, rfl⟩, rfl⟩ := h
  cases s with
  | false => exact ⟨u, hu, rfl⟩
  | true =>
    have hnonpos : (finite true u hu).value ≤ 0 := by
      rw [value_finite, signed_true, Int.cast_neg, neg_div]
      have : (0 : ℚ) ≤ ((u : ℤ) : ℚ) / unitsInOne := div_nonneg (by simp) unitsInOne_pos.le
      linarith
    exact ⟨0, representable_zero, by simpa using le_antisymm hnonpos h0⟩

/-- Of two values that are not negative the greater exceeds the other by at least one part in 2^53
of itself. -/
theorem IsValue.le_sub_mul {p q : ℚ} (hp : IsValue p) (hq : IsValue q) (h0 : 0 ≤ p) (h : p < q) :
    q ≤ (q - p) * 2 ^ 53 := by
  obtain ⟨u, hu, rfl⟩ := hp.exists_units h0
  obtain ⟨v, hv, rfl⟩ := hq.exists_units (h0.trans h.le)
  have hU := unitsInOne_pos
  rw [div_lt_div_iff_of_pos_right hU] at h
  have huv : u < v := by exact_mod_cast h
  have hgap := le_sub_mul_two_pow hu.2 hv.2 huv
  have hgap' : (v : ℚ) ≤ (v - u) * 2 ^ 53 := by
    rw [← Nat.cast_sub huv.le]
    exact_mod_cast hgap
  rw [← sub_div, div_mul_eq_mul_div, div_le_div_iff_of_pos_right hU]
  exact hgap'

/-- No double lies between the limit and one part in 2^53 below it. -/
theorem abs_value_le_max (x : Binary64) : |x.value| ≤ 2 ^ (1024 : ℤ) - 2 ^ (971 : ℤ) := by
  have hmax : (0 : ℚ) ≤ 2 ^ (1024 : ℤ) - 2 ^ (971 : ℤ) :=
    sub_nonneg.mpr (zpow_le_zpow_right₀ (by norm_num) (by norm_num))
  cases x with
  | nan => exact abs_zero.trans_le hmax
  | infinity s => exact abs_zero.trans_le hmax
  | finite s u h =>
    have hU := unitsInOne_pos
    have hgap := le_sub_mul_two_pow h.2 granule_dvd_limit h.1
    have hgap' : (limit : ℚ) ≤ (limit - u) * 2 ^ 53 := by
      rw [← Nat.cast_sub h.1.le]
      exact_mod_cast hgap
    have habs : |(signed s u : ℚ)| = u := by
      cases s <;> simp
    have hpow : (2 : ℚ) ^ (1024 : ℤ) = 2 ^ 53 * 2 ^ (971 : ℤ) := by
      rw [show (1024 : ℤ) = 53 + 971 by norm_num, zpow_add₀ (by norm_num)]
      congr 1
    rw [limit_eq, hpow] at hgap'
    rw [value_finite, abs_div, habs, abs_of_pos hU, div_le_iff₀ hU, hpow]
    generalize (2 : ℚ) ^ (971 : ℤ) = p at hgap' ⊢
    linarith

theorem value_le_two_pow (x : Binary64) : x.value ≤ 2 ^ 1024 := by
  have hle := (abs_le.mp x.abs_value_le_max).2
  have hspacing : (0 : ℚ) ≤ 2 ^ (971 : ℤ) := zpow_nonneg (by norm_num) _
  exact (hle.trans (sub_le_self _ hspacing)).trans_eq (zpow_natCast 2 1024)

/-- A result that exceeds a value by much less than the spacing above it rounds back to it. -/
theorem Rounds.value_le_of_close {q : ℚ} {z : Binary64} (h : Rounds q z) (hz : z.IsFinite) {b : ℚ}
    (hb : IsValue b) (h0 : 0 ≤ b) (hq : q - b ≤ b / 2 ^ 55) : z.value ≤ b := by
  by_contra hlt
  rw [not_le] at hlt
  have hgap := hb.le_sub_mul (isValue_value z) h0 hlt
  have hnear := h.abs_sub_le hz hb
  rcases le_total q b with hle | hge
  · exact absurd (h.value_le hz hb hle) (not_le.mpr hlt)
  · rw [abs_of_nonpos (sub_nonpos.mpr hge)] at hnear
    have hdist := (abs_le.mp hnear).2
    norm_num at hgap hq
    linarith

/-- Finite doubles other than the zeros are told apart by their values. -/
theorem eq_of_value_eq {x y : Binary64} (hx : x.IsFinite) (hy : y.IsFinite) (h : x.value = y.value)
    (h0 : x.value ≠ 0) : x = y := by
  obtain ⟨s, u, hu, rfl⟩ := hx
  obtain ⟨t, v, hv, rfl⟩ := hy
  rw [value_finite, value_finite, div_left_inj' unitsInOne_pos.ne'] at h
  have hne : signed s u ≠ 0 := by
    intro hzero
    exact h0 (by rw [value_finite, hzero, Int.cast_zero, zero_div])
  have hz : signed s u = signed t v := by exact_mod_cast h
  have hst : s = t ∧ u = v := by
    cases s <;> cases t <;> simp only [signed_false, signed_true] at hz hne <;>
      simp only [Bool.false_eq_true, Bool.true_eq_false, false_and, true_and] <;> omega
  obtain ⟨rfl, rfl⟩ := hst
  rfl

theorem div_self_eq_one {x : Binary64} (hx : x.IsFinite) (h0 : x.value ≠ 0) : x / x = 1 := by
  have hround := rounds_div hx hx h0
  rw [div_self h0] at hround
  obtain ⟨hfin, hval⟩ := hround.eq_of_isValue isValue_one
  exact eq_of_value_eq hfin isFinite_one (hval.trans value_one.symm) (by rw [hval]; norm_num)

end BinomialLogit.Binary64
