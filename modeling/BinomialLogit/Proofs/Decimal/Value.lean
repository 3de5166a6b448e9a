import BinomialLogit.Decimal.Basic
import BinomialLogit.Proofs.Binary64.NearestEven

/-! The number that a decimal stands for, and the double it is read as: the nearest one, with the
sign of the decimal. The bounds by which reading avoids great powers of ten change no result, so
what is read is one rounding of the exact quotient. -/

namespace BinomialLogit.Decimal
set_option autoImplicit false
open Binary64

def magnitude (d : Decimal) : ℚ := d.digits * 10 ^ d.exponent

def value (d : Decimal) : ℚ := signed d.negative d.digits * 10 ^ d.exponent

/-- The magnitude in units is `numerator` by `denominator`. -/
def numerator (d : Decimal) : ℕ := d.digits * 10 ^ d.exponent.toNat * unitsInOne

def denominator (d : Decimal) : ℕ := 10 ^ (-d.exponent).toNat

section Value
variable (d : Decimal)

theorem ten_zpow_pos (e : ℤ) : (0 : ℚ) < 10 ^ e := zpow_pos (by norm_num) e

theorem magnitude_nonneg : 0 ≤ d.magnitude :=
  mul_nonneg (Nat.cast_nonneg _) (ten_zpow_pos _).le

theorem value_of_negative (h : d.negative = true) : d.value = -d.magnitude := by
  rw [value, magnitude, h, signed_true, Int.cast_neg, Int.cast_natCast, neg_mul]

theorem value_of_not_negative (h : d.negative = false) : d.value = d.magnitude := by
  rw [value, magnitude, h, signed_false, Int.cast_natCast]

theorem abs_value : |d.value| = d.magnitude := by
  cases h : d.negative with
  | false => rw [value_of_not_negative d h, abs_of_nonneg d.magnitude_nonneg]
  | true => rw [value_of_negative d h, abs_neg, abs_of_nonneg d.magnitude_nonneg]

theorem denominator_pos : 0 < d.denominator := Nat.pow_pos (by norm_num)

theorem ten_zpow_mul_denominator :
    (10 : ℚ) ^ d.exponent * d.denominator = 10 ^ d.exponent.toNat := by
  rw [denominator, Nat.cast_pow, Nat.cast_ofNat, ← zpow_natCast, ← zpow_natCast,
    ← zpow_add₀ (by norm_num)]
  congr 1
  omega

theorem numerator_div_denominator :
    (d.numerator : ℚ) / d.denominator = d.magnitude * unitsInOne := by
  have hden : (d.denominator : ℚ) ≠ 0 := by exact_mod_cast d.denominator_pos.ne'
  rw [div_eq_iff hden, magnitude, numerator, Nat.cast_mul, Nat.cast_mul, Nat.cast_pow,
    Nat.cast_ofNat, ← ten_zpow_mul_denominator]
  ring

theorem value_eq :
    d.value = (signed d.negative d.numerator : ℚ) / (d.denominator * unitsInOne) := by
  have hquot := d.numerator_div_denominator
  rw [← div_div]
  cases h : d.negative with
  | false =>
    rw [value_of_not_negative d h, signed_false, Int.cast_natCast, hquot,
      mul_div_cancel_right₀ _ unitsInOne_pos.ne']
  | true =>
    rw [value_of_negative d h, signed_true, Int.cast_neg, Int.cast_natCast, neg_div, neg_div,
      hquot, mul_div_cancel_right₀ _ unitsInOne_pos.ne']

end Value

section Reading
variable {d : Decimal}

theorem two_pow_le_ten_pow (n : ℕ) : 2 ^ (3 * n) ≤ 10 ^ n := by
  rw [Nat.pow_mul]
  exact Nat.pow_le_pow_left (by norm_num) n

theorem two_mul_numerator_le (h : d.exponent + d.digits.log2 < -400) :
    2 * d.numerator ≤ d.denominator := by
  obtain ⟨places, hplaces, hunits⟩ := unitsInOne_eq_two_pow
  have hpower : d.exponent.toNat = 0 := by omega
  have hdigits : d.digits ≤ 2 ^ (d.digits.log2 + 1) := Nat.le_of_lt Nat.lt_log2_self
  calc 2 * d.numerator = 2 * (d.digits * 2 ^ places) := by
        rw [numerator, hpower, hunits, Nat.pow_zero, Nat.mul_one]
    _ ≤ 2 * (2 ^ (d.digits.log2 + 1) * 2 ^ places) :=
        Nat.mul_le_mul_left 2 (Nat.mul_le_mul_right _ hdigits)
    _ = 2 ^ (d.digits.log2 + places + 2) := by ring
    _ ≤ 2 ^ (3 * (-d.exponent).toNat) := Nat.pow_le_pow_right (by norm_num) (by omega)
    _ ≤ d.denominator := two_pow_le_ten_pow _

theorem limit_mul_denominator_le (hdigits : d.digits ≠ 0) (h : 400 < d.exponent) :
    limit * d.denominator ≤ d.numerator := by
  obtain ⟨n, hn, hlimit⟩ := limit_eq_two_pow
  obtain ⟨places, hplaces, hunits⟩ := unitsInOne_eq_two_pow
  have hpower : (-d.exponent).toNat = 0 := by omega
  calc limit * d.denominator = 2 ^ n := by rw [denominator, hpower, hlimit, Nat.pow_zero, Nat.mul_one]
    _ ≤ 2 ^ (3 * d.exponent.toNat + places) := Nat.pow_le_pow_right (by norm_num) (by omega)
    _ = 1 * 2 ^ (3 * d.exponent.toNat) * 2 ^ places := by ring
    _ ≤ d.digits * 10 ^ d.exponent.toNat * 2 ^ places :=
        Nat.mul_le_mul_right _
          (Nat.mul_le_mul (Nat.one_le_iff_ne_zero.mpr hdigits) (two_pow_le_ten_pow _))
    _ = d.numerator := by rw [numerator, hunits]

/-- What is read is the exact quotient, rounded. -/
theorem toBinary64_eq (d : Decimal) :
    d.toBinary64 = .ofQuotient d.negative d.numerator d.denominator := by
  unfold toBinary64
  split
  · rename_i h
    refine (ofQuotient_eq_zero _ d.denominator_pos ?_).symm
    rcases h with hdigits | htiny
    · rw [numerator, hdigits]
      simp
    · exact two_mul_numerator_le htiny
  · rename_i h
    rw [not_or] at h
    split
    · rename_i hhuge
      have hle := limit_mul_denominator_le h.1 hhuge
      refine (ofQuotient_eq_infinity _ d.denominator_pos ?_).symm
      omega
    · rfl

theorem toBinary64_of_overflow (h : 2 ^ (1024 : ℤ) - 2 ^ (970 : ℤ) ≤ |d.value|) :
    d.toBinary64 = infinity d.negative := by
  have hden : (0 : ℚ) < d.denominator := by exact_mod_cast d.denominator_pos
  have hquot := (div_eq_iff hden.ne').mp d.numerator_div_denominator
  rw [Rounds.lastMiddle_eq, abs_value, div_mul_eq_mul_div, div_le_iff₀ (by positivity)] at h
  have hle : (18014398509481983 : ℚ) * (limit * d.denominator) ≤ d.numerator * 2 ^ 54 := by
    rw [limit_eq, hquot]
    generalize (2 : ℚ) ^ (1024 : ℤ) = p at h ⊢
    calc (18014398509481983 : ℚ) * (p * unitsInOne * d.denominator) =
          (2 ^ 54 - 1) * p * (unitsInOne * d.denominator) := by ring
      _ ≤ d.magnitude * 2 ^ 54 * (unitsInOne * d.denominator) :=
          mul_le_mul_of_nonneg_right h (mul_pos unitsInOne_pos hden).le
      _ = d.magnitude * unitsInOne * d.denominator * 2 ^ 54 := by ring
  rw [toBinary64_eq]
  apply ofQuotient_eq_infinity _ d.denominator_pos
  exact_mod_cast hle

theorem toBinary64_of_underflow (h : |d.value| ≤ 1 / 2 ^ (1075 : ℤ)) :
    d.toBinary64 = zero d.negative := by
  have hden : (0 : ℚ) < d.denominator := by exact_mod_cast d.denominator_pos
  have hU := unitsInOne_pos
  have hquot := (div_eq_iff hden.ne').mp d.numerator_div_denominator
  have hhalf : (1 : ℚ) / 2 ^ (1075 : ℤ) * unitsInOne = 1 / 2 := by
    rw [unitsInOne_eq, show (1075 : ℤ) = 1074 + 1 by norm_num, zpow_add_one₀ (by norm_num)]
    field_simp
  rw [abs_value] at h
  have hle : (2 : ℚ) * d.numerator ≤ d.denominator := by
    rw [hquot]
    calc 2 * (d.magnitude * unitsInOne * d.denominator) ≤
          2 * (1 / 2 ^ (1075 : ℤ) * unitsInOne * d.denominator) := by gcongr
      _ = d.denominator := by rw [hhalf]; ring
  rw [toBinary64_eq]
  apply ofQuotient_eq_zero _ d.denominator_pos
  exact_mod_cast hle

/-- The double nearest to the decimal, with its sign; the ends of the range are named. -/
structure CorrectlyRounded (d : Decimal) (x : Binary64) : Prop where
  nearest : |d.value| < 2 ^ (1024 : ℤ) - 2 ^ (970 : ℤ) → NearestEven d.value x
  sign : x.IsFinite → ∃ u h, x = finite d.negative u h
  overflow : 2 ^ (1024 : ℤ) - 2 ^ (970 : ℤ) ≤ |d.value| → x = infinity d.negative
  underflow : |d.value| ≤ 1 / 2 ^ (1075 : ℤ) → x = zero d.negative

theorem correctlyRounded (d : Decimal) : CorrectlyRounded d d.toBinary64 := by
  constructor
  case nearest =>
    intro h
    have hrounds := Rounds.ofQuotient d.negative d.numerator d.denominator d.denominator_pos
    rw [← d.value_eq] at hrounds
    rw [toBinary64_eq, d.value_eq]
    exact nearestEven_ofQuotient d.negative d.denominator_pos (hrounds.isFinite h)
  case sign =>
    intro h
    rw [toBinary64_eq] at h ⊢
    unfold ofQuotient at h ⊢
    split
    · rename_i hlt
      exact ⟨_, nearestUnits_representable hlt, rfl⟩
    · rename_i hge
      rw [dif_neg hge] at h
      exact absurd h (not_isFinite_infinity _)
  case overflow => exact toBinary64_of_overflow
  case underflow => exact toBinary64_of_underflow

end Reading

end BinomialLogit.Decimal
