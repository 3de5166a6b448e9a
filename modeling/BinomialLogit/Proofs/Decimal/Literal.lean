import BinomialLogit.Decimal.Basic
import BinomialLogit.Proofs.Binary64.Rounds

/-! Decimal literals as roundings of what is written. -/

namespace BinomialLogit.Binary64
set_option autoImplicit false

theorem rounds_literal {digits places : ℕ} (hdigits : digits ≠ 0) (hplaces : places ≤ 400) :
    Rounds ((digits : ℚ) / 10 ^ places) (OfScientific.ofScientific digits true places) := by
  have hquotient := Rounds.ofQuotient false (digits * unitsInOne) (10 ^ places)
    (Nat.pow_pos (by norm_num))
  have hq : (signed false (digits * unitsInOne) : ℚ) / ((10 ^ places : ℕ) * unitsInOne) =
      (digits : ℚ) / 10 ^ places := by
    rw [signed_false, Int.cast_natCast, Nat.cast_mul, Nat.cast_pow, Nat.cast_ofNat,
      mul_div_mul_right _ _ unitsInOne_pos.ne']
  have hz : (OfScientific.ofScientific digits true places : Binary64) =
      ofQuotient false (digits * unitsInOne) (10 ^ places) := by
    change Decimal.toBinary64 ⟨false, digits, -(places : ℤ)⟩ = _
    unfold Decimal.toBinary64
    have hinside : ¬(digits = 0 ∨ -(places : ℤ) + digits.log2 < -400) := by
      intro h
      rcases h with h | h
      · exact hdigits h
      · omega
    have hbelow : ¬400 < -(places : ℤ) := by omega
    rw [if_neg hinside, if_neg hbelow]
    simp
  rwa [hq, ← hz] at hquotient

/-- What is written is the value of the literal if it is the value of any double. -/
theorem literal_exact {digits places : ℕ} (hdigits : digits ≠ 0) (hplaces : places ≤ 400) {q : ℚ}
    (hq : IsValue q) (h : (digits : ℚ) / 10 ^ places = q) :
    (OfScientific.ofScientific digits true places : Binary64).IsFinite ∧
      (OfScientific.ofScientific digits true places : Binary64).value = q := by
  have hround := rounds_literal hdigits hplaces
  rw [h] at hround
  exact hround.eq_of_isValue hq

/-- A literal of moderate size has 53 binary digits of what is written. -/
theorem literal_error {digits places : ℕ} (hdigits : digits ≠ 0) (hplaces : places ≤ 400)
    (hlow : 1 / 2 ^ 200 ≤ (digits : ℚ) / 10 ^ places)
    (hhigh : (digits : ℚ) / 10 ^ places ≤ 2 ^ 200) :
    (OfScientific.ofScientific digits true places : Binary64).IsFinite ∧
      |(OfScientific.ofScientific digits true places : Binary64).value - digits / 10 ^ places| ≤
        digits / 10 ^ places / 2 ^ 53 := by
  have hpos : (0 : ℚ) < digits / 10 ^ places := lt_of_lt_of_le (by positivity) hlow
  have herror := (rounds_literal hdigits hplaces).relative_error
    (by rwa [abs_of_pos hpos]) (by rwa [abs_of_pos hpos])
  rwa [abs_of_pos hpos] at herror

end BinomialLogit.Binary64
