import BinomialLogit.Decimal.Layout
import BinomialLogit.Proofs.Decimal.Grammar
import BinomialLogit.Proofs.Decimal.Shortest

/-! What is written for a decimal is a numeral for the same number: with an exponent it spells the
decimal itself, with all places written the decimal whose zeros are digits. The written places
keep the rules of plain notation when no zero ends the decimal. -/

namespace BinomialLogit
set_option autoImplicit false

namespace Numeral
variable {a b : List Char}

theorem allDigits_toDigits (n : ℕ) : AllDigits (Nat.toDigits 10 n) :=
  fun _ hc => Nat.isDigit_of_mem_toDigits (by norm_num) (by norm_num) hc

theorem allDigits_replicate (k : ℕ) : AllDigits (List.replicate k '0') := by
  intro c hc
  rw [List.eq_of_mem_replicate hc]
  rfl

theorem AllDigits.append (ha : AllDigits a) (hb : AllDigits b) : AllDigits (a ++ b) := by
  intro c hc
  rcases List.mem_append.mp hc with hc | hc
  · exact ha c hc
  · exact hb c hc

theorem AllDigits.take (h : AllDigits a) (n : ℕ) : AllDigits (a.take n) :=
  fun c hc => h c (List.mem_of_mem_take hc)

theorem AllDigits.drop (h : AllDigits a) (n : ℕ) : AllDigits (a.drop n) :=
  fun c hc => h c (List.mem_of_mem_drop hc)

theorem sign_spells (negative : Bool) : Sign (Decimal.sign negative) negative := by
  cases negative with
  | false => exact .absent
  | true => exact .minus

/-- Plain notation: no exponent, a digit before the point, and no point without digits after it,
the last of which is not zero. -/
inductive Plain : List Char → Prop
  | number {sign whole point fraction : List Char} {negative : Bool} (hsign : Sign sign negative)
    (hwhole : AllDigits whole) (hsome : whole ≠ []) (hfraction : Fraction point fraction)
    (hlast : point ≠ [] → ∃ before last, fraction = before ++ [last] ∧ last ≠ '0') :
    Plain (sign ++ (whole ++ point))

end Numeral

namespace Decimal
open Numeral

section Spread
variable (d : Decimal)

def spread : Decimal := ⟨d.negative, d.digits * 10 ^ d.exponent.toNat, -(-d.exponent).toNat⟩

theorem magnitude_spread : d.spread.magnitude = d.magnitude := by
  have hexp : (10 : ℚ) ^ d.exponent =
      10 ^ d.exponent.toNat * 10 ^ (-((-d.exponent).toNat : ℤ)) := by
    rw [← zpow_natCast, ← zpow_add₀ (by norm_num)]
    congr 1
    omega
  rw [magnitude, magnitude, hexp, spread, Nat.cast_mul, Nat.cast_pow, Nat.cast_ofNat, mul_assoc]

theorem significant_spread : d.spread.significant = d.significant := by
  unfold significant spread
  dsimp only
  generalize d.exponent.toNat = zeros
  congr 1
  induction zeros with
  | zero => rw [Nat.pow_zero, Nat.mul_one]
  | succ zeros ih => rw [Nat.pow_succ, ← Nat.mul_assoc, rdropWhile_toDigits_mul_ten, ih]

theorem value_spread : d.spread.value = d.value := by
  have hmag := d.magnitude_spread
  cases h : d.negative with
  | false => rw [value_of_not_negative _ h, value_of_not_negative d.spread h, hmag]
  | true => rw [value_of_negative _ h, value_of_negative d.spread h, hmag]

variable {d}

theorem IsShortest.spread {x : Binary64} (h : IsShortest d x) : IsShortest d.spread x := by
  constructor
  case reads =>
    have hsame : d.spread.toBinary64 = d.toBinary64 := toBinary64_congr rfl d.magnitude_spread
    rw [hsame, h.reads]
  case fewest =>
    rw [significant_spread]
    exact h.fewest
  case nearest =>
    rw [significant_spread, value_spread]
    exact h.nearest

end Spread

section Scientific

theorem exponentText_spells (exponent : ℤ) : Exponent (exponentText exponent) exponent := by
  have hvalue : (if decide (exponent < 0) = true then
      -(Nat.ofDigitChars 10 (Nat.toDigits 10 exponent.natAbs) 0 : ℤ)
      else Nat.ofDigitChars 10 (Nat.toDigits 10 exponent.natAbs) 0) = exponent := by
    rw [Nat.ofDigitChars_ten_toDigits]
    split
    · rename_i h
      rw [decide_eq_true_iff] at h
      omega
    · rename_i h
      rw [decide_eq_true_iff] at h
      omega
  have hpower : Exponent (exponentText exponent) _ :=
    .power (.inl rfl) (sign_spells (exponent < 0)) Nat.toDigits_ne_nil
      (allDigits_toDigits exponent.natAbs)
  rwa [hvalue] at hpower

theorem scientific_spells (d : Decimal) : Spells d.scientific (.decimal d) := by
  have hdigits := allDigits_toDigits d.digits
  have hnumber : Nat.ofDigitChars 10 (Nat.toDigits 10 d.digits) 0 = d.digits :=
    Nat.ofDigitChars_ten_toDigits
  unfold scientific
  split
  · rename_i h
    exact absurd h Nat.toDigits_ne_nil
  · rename_i first h
    rw [h] at hdigits hnumber
    have hspells := Spells.decimal (sign_spells d.negative) hdigits .absent (.inl (by simp))
      (exponentText_spells d.exponent)
    rw [List.append_nil, hnumber] at hspells
    simpa using hspells
  · rename_i first rest _ h
    rw [h] at hdigits hnumber
    have hfirst : AllDigits [first] := hdigits.take 1
    have hrest : AllDigits rest := hdigits.drop 1
    have hspells := Spells.decimal (sign_spells d.negative) hfirst (.point hrest)
      (.inl (by simp)) (exponentText_spells (d.exponent + rest.length))
    rw [List.singleton_append, List.singleton_append, hnumber, add_sub_cancel_right] at hspells
    simpa using hspells

end Scientific

section Positional

variable {d : Decimal}

/-- The digits of the number without its power of ten, filled up to one place before the point. -/
def padded (d : Decimal) : List Char :=
  List.replicate ((-d.exponent).toNat + 1 - (Nat.toDigits 10 d.digits).length) '0' ++
    Nat.toDigits 10 d.digits

theorem lt_length_padded (d : Decimal) : (-d.exponent).toNat < d.padded.length := by
  rw [padded, List.length_append, List.length_replicate]
  omega

theorem allDigits_padded (d : Decimal) : AllDigits d.padded :=
  (allDigits_replicate _).append (allDigits_toDigits _)

theorem ofDigitChars_padded (d : Decimal) : Nat.ofDigitChars 10 d.padded 0 = d.digits := by
  rw [padded, Nat.ofDigitChars_append, Nat.ofDigitChars_replicate_zero, Nat.mul_zero,
    Nat.ofDigitChars_ten_toDigits]

theorem positional_of_nonneg (h : 0 ≤ d.exponent) : d.positional = sign d.negative ++
    ((Nat.toDigits 10 d.digits ++ List.replicate d.exponent.toNat '0') ++ []) := by
  unfold positional
  rw [if_pos (by omega), List.append_nil]

theorem positional_of_neg (h : d.exponent < 0) : d.positional = sign d.negative ++
    (d.padded.take (d.padded.length - (-d.exponent).toNat) ++
      '.' :: d.padded.drop (d.padded.length - (-d.exponent).toNat)) := by
  have hpower : d.exponent.toNat = 0 := by omega
  unfold positional padded
  rw [if_neg (by omega), hpower, List.replicate_zero, List.append_nil, List.append_assoc]

theorem length_drop_padded (d : Decimal) :
    (d.padded.drop (d.padded.length - (-d.exponent).toNat)).length = (-d.exponent).toNat := by
  have := d.lt_length_padded
  rw [List.length_drop]
  omega

theorem take_padded_ne_nil (d : Decimal) :
    d.padded.take (d.padded.length - (-d.exponent).toNat) ≠ [] := by
  have := d.lt_length_padded
  rw [← List.length_pos_iff, List.length_take]
  omega

theorem positional_spells (d : Decimal) : Spells d.positional (.decimal d.spread) := by
  rcases lt_or_ge d.exponent 0 with h | h
  · have hdigits := d.allDigits_padded
    have hspells := Spells.decimal (sign_spells d.negative)
      (hdigits.take (d.padded.length - (-d.exponent).toNat))
      (.point (hdigits.drop (d.padded.length - (-d.exponent).toNat)))
      (.inl d.take_padded_ne_nil) .absent
    rw [List.take_append_drop, ofDigitChars_padded, length_drop_padded, List.append_nil,
      ← positional_of_neg h] at hspells
    have hspread : d.spread = ⟨d.negative, d.digits, 0 - (-d.exponent).toNat⟩ := by
      rw [spread, show d.exponent.toNat = 0 by omega, Nat.pow_zero, Nat.mul_one, zero_sub]
    rwa [hspread]
  · have hspells := Spells.decimal (sign_spells d.negative)
      ((allDigits_toDigits d.digits).append (allDigits_replicate d.exponent.toNat)) .absent
      (.inl (by simp [Nat.toDigits_ne_nil])) .absent
    rw [List.nil_append, ← positional_of_nonneg h, List.append_nil, Nat.ofDigitChars_append,
      Nat.ofDigitChars_ten_toDigits, Nat.ofDigitChars_replicate_zero, Nat.mul_comm] at hspells
    have hspread : d.spread = ⟨d.negative, d.digits * 10 ^ d.exponent.toNat, 0⟩ := by
      rw [spread, show (-d.exponent).toNat = 0 by omega]
      rfl
    rwa [hspread]

theorem plain_positional (h : d.exponent < 0 → d.digits % 10 ≠ 0) : Plain d.positional := by
  rcases lt_or_ge d.exponent 0 with hneg | hnonneg
  · have hdigits := d.allDigits_padded
    rw [positional_of_neg hneg]
    refine .number (sign_spells d.negative) (hdigits.take _) d.take_padded_ne_nil
      (.point (hdigits.drop _)) fun _ => ?_
    obtain ⟨before, last, hlast, hne⟩ := exists_last_digit (h hneg)
    have hsplit : d.padded = (List.replicate ((-d.exponent).toNat + 1 -
        (Nat.toDigits 10 d.digits).length) '0' ++ before) ++ [last] := by
      rw [padded, hlast, List.append_assoc]
    have hcut := d.length_drop_padded
    rw [hsplit] at hcut ⊢
    generalize _ ++ before = front at hcut ⊢
    have hle : (front ++ [last]).length - (-d.exponent).toNat ≤ front.length := by
      rw [List.length_append, List.length_singleton]
      omega
    exact ⟨_, last, List.drop_append_of_le_length hle, hne⟩
  · rw [positional_of_nonneg hnonneg]
    exact .number (sign_spells d.negative)
      ((allDigits_toDigits d.digits).append (allDigits_replicate _))
      (by simp [Nat.toDigits_ne_nil]) .absent fun h => absurd rfl h

end Positional

end Decimal

namespace Binary64
open Numeral

def inNumber (c : Char) : Bool :=
  c.isDigit || decide (c ∈ ['+', '-', '.', 'e', 'E', 'N', 'a', 'i', 'n', 'f'])

section Characters
variable {c : Char} {text sign digits : List Char}

theorem inNumber_of_isDigit (h : c.isDigit = true) : inNumber c = true := by
  rw [inNumber, h, Bool.true_or]

theorem inNumber_of_mem_sign {negative : Bool} (h : Sign sign negative) (hc : c ∈ sign) :
    inNumber c = true := by
  cases h with
  | absent => cases hc
  | plus => rw [List.mem_singleton.mp hc]; rfl
  | minus => rw [List.mem_singleton.mp hc]; rfl

theorem inNumber_of_mem_fraction (h : Fraction text digits) (hc : c ∈ text) :
    inNumber c = true := by
  cases h with
  | absent => cases hc
  | point hdigits =>
    rcases List.mem_cons.mp hc with rfl | hc
    · rfl
    · exact inNumber_of_isDigit (hdigits c hc)

theorem inNumber_of_mem_exponent {exponent : ℤ} (h : Exponent text exponent) (hc : c ∈ text) :
    inNumber c = true := by
  cases h with
  | absent => cases hc
  | power hmark hsign _ hdigits =>
    rcases List.mem_cons.mp hc with rfl | hc
    · rcases hmark with rfl | rfl <;> rfl
    · rcases List.mem_append.mp hc with hc | hc
      · exact inNumber_of_mem_sign hsign hc
      · exact inNumber_of_isDigit (hdigits c hc)

theorem inNumber_of_spells {d : Decimal} (h : Spells text (.decimal d)) (hc : c ∈ text) :
    inNumber c = true := by
  cases h with
  | decimal hsign hwhole hfraction _ htail =>
    simp only [List.mem_append] at hc
    rcases hc with hc | hc | hc | hc
    · exact inNumber_of_mem_sign hsign hc
    · exact inNumber_of_isDigit (hwhole c hc)
    · exact inNumber_of_mem_fraction hfraction hc
    · exact inNumber_of_mem_exponent htail hc

end Characters

section Finite
variable (s : Bool) {u : ℕ} (h : Representable u)

theorem toList_positional_finite :
    (finite s u h).positional.toList = (Decimal.shortest s u h).positional :=
  String.toList_ofList

theorem positional_finite_spells : Spells (finite s u h).positional.toList
    (.decimal (Decimal.shortest s u h).spread) := by
  rw [toList_positional_finite]
  exact Decimal.positional_spells _

theorem scientific_finite_spells : Spells (finite s u h).scientific.toList
    (.decimal (Decimal.shortest s u h)) := by
  have hlist : (finite s u h).scientific.toList = (Decimal.shortest s u h).scientific :=
    String.toList_ofList
  rw [hlist]
  exact Decimal.scientific_spells _

theorem plain_positional_finite : Plain (finite s u h).positional.toList := by
  rw [toList_positional_finite]
  apply Decimal.plain_positional
  intro hneg
  by_cases hu : u = 0
  · rw [Decimal.shortest, if_pos hu] at hneg
    exact absurd hneg (lt_irrefl 0)
  · exact (Decimal.shortest_onCoarsestGrid s hu).last_digit_ne_zero

end Finite

theorem inNumber_of_mem_positional {x : Binary64} :
    ∀ c ∈ x.positional.toList, inNumber c = true := by
  cases x with
  | nan => exact List.all_eq_true.mp rfl
  | infinity s => cases s <;> exact List.all_eq_true.mp rfl
  | finite s u h => exact fun c hc => inNumber_of_spells (positional_finite_spells s h) hc

end Binary64

end BinomialLogit
