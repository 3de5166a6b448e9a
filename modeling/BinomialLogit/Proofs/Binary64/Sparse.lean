import BinomialLogit.Proofs.Binary64.NearestEven

/-! Where doubles are sparse. From a power of two on all values are multiples of one spacing. Half
way between neighbours the one with the even multiple is taken, and what is added to a value is lost
when it is small against the spacing above. -/

namespace BinomialLogit.Binary64
set_option autoImplicit false

/-- Multiples of a power of two by up to 53 binary digits, or by the next whole number. -/
theorem isValue_mul_zpow {n : ℕ} {e : ℤ} (hn : n ≤ 2 ^ 53) (hlow : -1074 ≤ e) (hhigh : e ≤ 970) :
    IsValue (n * 2 ^ e) := by
  rcases hn.lt_or_eq with hlt | rfl
  · exact isValue_of_eq n e (by norm_num) (by simpa using hlt) hlow (by omega)
  · refine isValue_of_eq (2 ^ 52) (e + 1) ?_ (by norm_num) (by omega) (by omega)
    rw [zpow_add_one₀ (by norm_num)]
    push_cast
    ring

/-- From a power of two on the values are multiples of the spacing above it. -/
theorem IsValue.exists_eq_mul {q : ℚ} (h : IsValue q) {e : ℤ} (he : -1074 ≤ e)
    (hq : 2 ^ 52 * 2 ^ e ≤ q) : ∃ n : ℕ, q = n * 2 ^ e := by
  have hpow : (0 : ℚ) < 2 ^ e := zpow_pos (by norm_num) e
  obtain ⟨u, hu, rfl⟩ := h.exists_units (le_trans (by positivity) hq)
  obtain ⟨k, rfl⟩ : ∃ k : ℕ, e = k - 1074 := ⟨(e + 1074).toNat, by omega⟩
  have hspacing : (2 : ℚ) ^ ((k : ℤ) - 1074) = 2 ^ k / unitsInOne := by
    rw [zpow_sub₀ (by norm_num), zpow_natCast, unitsInOne_eq]
  rw [hspacing, mul_div_assoc', div_le_div_iff_of_pos_right unitsInOne_pos, ← pow_add] at hq
  have hle : 2 ^ (52 + k) ≤ u := by exact_mod_cast hq
  have hne : u ≠ 0 := by
    rintro rfl
    exact (Nat.two_pow_pos (52 + k)).ne' (Nat.le_zero.mp hle)
  have hlog : 52 + k ≤ u.log2 := (Nat.le_log2 hne).mpr hle
  obtain ⟨n, hn⟩ : 2 ^ k ∣ u := (Nat.pow_dvd_pow 2 (by omega)).trans hu.2
  refine ⟨n, ?_⟩
  rw [hspacing, hn]
  push_cast
  ring

/-- From a power of two on the next value is at least the spacing away. -/
theorem IsValue.add_spacing_le {p q : ℚ} (hp : IsValue p) (hq : IsValue q) {e : ℤ} (he : -1074 ≤ e)
    (hlow : 2 ^ 52 * 2 ^ e ≤ p) (h : p < q) : p + 2 ^ e ≤ q := by
  have hpow : (0 : ℚ) < 2 ^ e := zpow_pos (by norm_num) e
  obtain ⟨m, rfl⟩ := hp.exists_eq_mul he hlow
  obtain ⟨n, rfl⟩ := hq.exists_eq_mul he (hlow.trans h.le)
  have hmn : m < n := by exact_mod_cast (mul_lt_mul_iff_left₀ hpow).mp h
  have hmn' : (m : ℚ) + 1 ≤ n := by exact_mod_cast hmn
  calc (m : ℚ) * 2 ^ e + 2 ^ e = (m + 1) * 2 ^ e := by ring
    _ ≤ n * 2 ^ e := mul_le_mul_of_nonneg_right hmn' hpow.le

theorem isValue_div_four {n : ℕ} (h : n ≤ 2 ^ 53) : IsValue (n / 4) := by
  have hvalue := isValue_mul_zpow (e := -2) h (by norm_num) (by norm_num)
  norm_num at hvalue
  rwa [div_eq_mul_one_div]

theorem isValue_div_two {n : ℕ} (h : n ≤ 2 ^ 53) : IsValue (n / 2) := by
  simpa [div_eq_mul_inv] using isValue_mul_zpow (e := -1) h (by norm_num) (by norm_num)

theorem isValue_whole {n : ℕ} (h : n ≤ 2 ^ 53) : IsValue n := by
  simpa using isValue_mul_zpow (e := 0) h (by norm_num) (by norm_num)

theorem IsValue.exists_eq_div_four {q : ℚ} (h : IsValue q) (hq : 2 ^ 50 ≤ q) :
    ∃ n : ℕ, q = n / 4 := by
  obtain ⟨n, rfl⟩ := h.exists_eq_mul (e := -2) (by norm_num) (by norm_num at hq ⊢; linarith)
  refine ⟨n, ?_⟩
  norm_num
  ring

theorem IsValue.exists_eq_div_two {q : ℚ} (h : IsValue q) (hq : 2 ^ 51 ≤ q) :
    ∃ n : ℕ, q = n / 2 := by
  obtain ⟨n, rfl⟩ := h.exists_eq_mul (e := -1) (by norm_num) (by norm_num at hq ⊢; linarith)
  refine ⟨n, ?_⟩
  norm_num
  ring

theorem IsValue.exists_eq_whole {q : ℚ} (h : IsValue q) (hq : 2 ^ 52 ≤ q) : ∃ n : ℕ, q = n := by
  simpa using h.exists_eq_mul (e := 0) (by norm_num) (by simpa using hq)

namespace Rounds
variable {q : ℚ} {z : Binary64}

theorem nearestEven (h : Rounds q z) (hz : z.IsFinite) : NearestEven q z := by
  obtain ⟨s, num, den, hd⟩ := h
  exact nearestEven_ofQuotient s hd hz

/-- What exceeds a value by at most one part in 2^54 is rounded back to it. -/
theorem value_eq_of_close (h : Rounds q z) (hz : z.IsFinite) {b : ℚ} (hb : IsValue b) (h0 : 0 ≤ b)
    (hq : b ≤ q) (hclose : q - b ≤ b / 2 ^ 54) : z.value = b := by
  refine le_antisymm ?_ (h.le_value hz hb hq)
  by_contra hlt
  rw [not_le] at hlt
  have hgap := hb.le_sub_mul (isValue_value z) h0 hlt
  have hnear := h.abs_sub_le hz hb
  rw [abs_of_nonpos (sub_nonpos.mpr hq)] at hnear
  have hdist := (abs_le.mp hnear).2
  norm_num at hgap hclose
  linarith

/-- Below the middle to the next value the rounding stays at or below a value. -/
theorem value_le_of_lt_middle (h : Rounds q z) (hz : z.IsFinite) {b : ℚ} {e : ℤ} (hb : IsValue b)
    (he : -1074 ≤ e) (hlow : 2 ^ 52 * 2 ^ e ≤ b) (hq : q < b + 2 ^ e / 2) : z.value ≤ b := by
  by_contra hlt
  rw [not_le] at hlt
  have hgap := hb.add_spacing_le (isValue_value z) he hlow hlt
  have hnear := h.abs_sub_le hz hb
  rcases le_total q b with hle | hge
  · exact absurd (h.value_le hz hb hle) (not_le.mpr hlt)
  · rw [abs_of_nonpos (sub_nonpos.mpr hge)] at hnear
    have hdist := (abs_le.mp hnear).2
    linarith

end Rounds

/-- The significand of a normal number is the multiple of its spacing. -/
theorem EvenSignificand.two_dvd {x : Binary64} (h : x.EvenSignificand) {n : ℕ} {e : ℤ}
    (he : -1074 ≤ e) (hn : 2 ^ 52 ≤ n) (hn' : n < 2 ^ 53) (hx : x.value = n * 2 ^ e) : 2 ∣ n := by
  cases x with
  | nan => exact h.elim
  | infinity s => exact h.elim
  | finite s u hu =>
    obtain ⟨k, rfl⟩ : ∃ k : ℕ, e = k - 1074 := ⟨(e + 1074).toNat, by omega⟩
    rw [value_finite, zpow_sub₀ (by norm_num), zpow_natCast, ← unitsInOne_eq, mul_div_assoc',
      div_left_inj' unitsInOne_pos.ne'] at hx
    have hsigned : signed s u = (n * 2 ^ k : ℕ) := by exact_mod_cast hx
    have hunits : u = n * 2 ^ k := by
      cases s with
      | false =>
        rw [signed_false] at hsigned
        exact_mod_cast hsigned
      | true =>
        rw [signed_true] at hsigned
        omega
    have hlog : u.log2 = 52 + k := by
      have hpos := Nat.two_pow_pos k
      rw [hunits, Nat.log2_eq_iff (by positivity)]
      constructor
      · rw [Nat.pow_add]
        exact Nat.mul_le_mul_right _ hn
      · rw [show 52 + k + 1 = 53 + k by omega, Nat.pow_add]
        exact Nat.mul_lt_mul_of_pos_right hn' hpos
    have hg : granule u = 2 ^ k := by
      rw [granule, hlog, Nat.add_sub_cancel_left]
    have heven : 2 ∣ u / granule u := h
    rwa [hg, hunits, Nat.mul_div_cancel _ (Nat.two_pow_pos k)] at heven

/-- Half way between neighbouring multiples of the spacing the even one is taken. -/
theorem Rounds.value_of_tie {z : Binary64} {n : ℕ} {e : ℤ} (h : Rounds ((n + 1 / 2) * 2 ^ e) z)
    (hz : z.IsFinite) (hlow : -1074 ≤ e) (hhigh : e ≤ 970) (hn : 2 ^ 52 ≤ n) (hn' : n < 2 ^ 53) :
    z.value = (n + n % 2 : ℕ) * 2 ^ e := by
  have hpow : (0 : ℚ) < 2 ^ e := zpow_pos (by norm_num) e
  have hleft : IsValue (n * 2 ^ e) := isValue_mul_zpow hn'.le hlow hhigh
  have hright : IsValue ((n + 1 : ℕ) * 2 ^ e) := isValue_mul_zpow hn' hlow hhigh
  obtain ⟨-, hle, hge⟩ := h.between hleft hright
    (mul_le_mul_of_nonneg_right (by norm_num) hpow.le)
    (mul_le_mul_of_nonneg_right (by push_cast; norm_num) hpow.le)
  have hgrid : (2 : ℚ) ^ 52 * 2 ^ e ≤ z.value :=
    (mul_le_mul_of_nonneg_right (by exact_mod_cast hn) hpow.le).trans hle
  obtain ⟨k, hk⟩ := (isValue_value z).exists_eq_mul hlow hgrid
  rw [hk, mul_le_mul_iff_left₀ hpow] at hle hge
  have hnk : n ≤ k := by exact_mod_cast hle
  have hkn : k ≤ n + 1 := by exact_mod_cast hge
  obtain ⟨b, hb, hbval⟩ : IsValue ((2 * n + 1 - k : ℕ) * 2 ^ e) :=
    isValue_mul_zpow (by omega) hlow hhigh
  have hother : b.value ≠ z.value := by
    rw [hbval, hk, ne_eq, mul_left_inj' hpow.ne', Nat.cast_inj]
    omega
  have hmiddle : |b.value - (n + 1 / 2) * 2 ^ e| = |z.value - (n + 1 / 2) * 2 ^ e| := by
    rw [hbval, hk, Nat.cast_sub (by omega), ← abs_neg]
    push_cast
    congr 1
    ring
  have heven := (h.nearestEven hz).even b hb hother hmiddle
  have hdvd : 2 ∣ k := by
    rcases (show k < 2 ^ 53 ∨ k = 2 ^ 53 by omega) with hlt | rfl
    · exact heven.two_dvd hlow (hn.trans hnk) hlt hk
    · norm_num
  rw [hk, show k = n + n % 2 by omega]

end BinomialLogit.Binary64
