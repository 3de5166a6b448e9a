import BinomialLogit.Binary64.Arithmetic
import Mathlib.Algebra.Order.Field.Basic
import Mathlib.Algebra.Order.Field.Rat
import Mathlib.Data.Rat.Cast.Order
import Mathlib.Tactic.Linarith
import Mathlib.Tactic.NormNum
import Mathlib.Tactic.Positivity
import Mathlib.Tactic.FieldSimp
import Mathlib.Tactic.Ring

/-! The rational number that a finite double stands for. The order of the finite doubles is the
order of their values, and a double between two finite ones is finite. -/

namespace BinomialLogit.Binary64
set_option autoImplicit false

/-- The number a finite double stands for. What is not finite stands for none; it gets zero. -/
def value : Binary64 → ℚ
  | finite s u _ => (signed s u : ℚ) / unitsInOne
  | _ => 0

def IsValue (q : ℚ) : Prop := ∃ b : Binary64, b.IsFinite ∧ b.value = q

@[simp] theorem signed_false (u : ℕ) : signed false u = u := rfl

@[simp] theorem signed_true (u : ℕ) : signed true u = -u := rfl

theorem signed_not (s : Bool) (u : ℕ) : signed (!s) u = -signed s u := by
  cases s <;> simp

theorem unitsInOne_eq : (unitsInOne : ℚ) = 2 ^ (1074 : ℤ) := by
  obtain ⟨n, hn, h⟩ := unitsInOne_eq_two_pow
  have hz : (1074 : ℤ) = n := by omega
  rw [h, hz, zpow_natCast, Nat.cast_pow, Nat.cast_ofNat]

theorem unitsInOne_pos : (0 : ℚ) < unitsInOne := by
  rw [unitsInOne_eq]
  exact zpow_pos (by norm_num) _

theorem limit_eq : (limit : ℚ) = 2 ^ (1024 : ℤ) * unitsInOne := by
  obtain ⟨n, hn, h⟩ := limit_eq_two_pow
  rw [h, Nat.cast_pow, Nat.cast_ofNat, ← zpow_natCast, unitsInOne_eq, ← zpow_add₀ (by norm_num), hn]
  norm_num

theorem representable_mul_unitsInOne {n : ℕ} (h : n < 2 ^ 53) : Representable (n * unitsInOne) := by
  obtain ⟨k, hk, hu⟩ := unitsInOne_eq_two_pow
  rw [hu]
  exact representable_mul_two_pow h (by omega)

theorem value_finite (s : Bool) (u : Nat) (h : Representable u) :
    (finite s u h).value = (signed s u : ℚ) / unitsInOne := rfl

theorem isFinite_finite (s : Bool) (u : Nat) (h : Representable u) : (finite s u h).IsFinite :=
  ⟨s, u, h, rfl⟩

theorem not_isFinite_nan : ¬nan.IsFinite := by
  intro h
  obtain ⟨_, _, _, h⟩ := h
  cases h

theorem not_isFinite_infinity (s : Bool) : ¬(infinity s).IsFinite := by
  intro h
  obtain ⟨_, _, _, h⟩ := h
  cases h

theorem IsFinite.ne_nan {x : Binary64} (h : x.IsFinite) : x ≠ nan := by
  rintro rfl
  exact not_isFinite_nan h

theorem IsFinite.place_eq {x : Binary64} (h : x.IsFinite) :
    ∃ a : ℤ, x.place = some a ∧ x.value = a / unitsInOne := by
  obtain ⟨s, u, hu, rfl⟩ := h
  exact ⟨signed s u, rfl, rfl⟩

section Order
variable {x y z : Binary64}

theorem le_iff_value_le (hx : x.IsFinite) (hy : y.IsFinite) : x ≤ y ↔ x.value ≤ y.value := by
  obtain ⟨a, ha, hva⟩ := hx.place_eq
  obtain ⟨b, hb, hvb⟩ := hy.place_eq
  rw [le_iff, hva, hvb, div_le_div_iff_of_pos_right unitsInOne_pos]
  simp [ha, hb]

theorem lt_iff_value_lt (hx : x.IsFinite) (hy : y.IsFinite) : x < y ↔ x.value < y.value := by
  obtain ⟨a, ha, hva⟩ := hx.place_eq
  obtain ⟨b, hb, hvb⟩ := hy.place_eq
  rw [lt_iff, hva, hvb, div_lt_div_iff_of_pos_right unitsInOne_pos]
  simp [ha, hb]

protected theorem le_trans (hxy : x ≤ y) (hyz : y ≤ z) : x ≤ z := by
  obtain ⟨a, b, ha, hb, hab⟩ := le_iff.mp hxy
  obtain ⟨b', c, hb', hc, hbc⟩ := le_iff.mp hyz
  obtain rfl : b = b' := Option.some.inj (hb.symm.trans hb')
  exact le_iff.mpr ⟨a, c, ha, hc, Int.le_trans hab hbc⟩

protected theorem lt_of_lt_of_le (hxy : x < y) (hyz : y ≤ z) : x < z := by
  obtain ⟨a, b, ha, hb, hab⟩ := lt_iff.mp hxy
  obtain ⟨b', c, hb', hc, hbc⟩ := le_iff.mp hyz
  obtain rfl : b = b' := Option.some.inj (hb.symm.trans hb')
  exact lt_iff.mpr ⟨a, c, ha, hc, Int.lt_of_lt_of_le hab hbc⟩

protected theorem lt_of_le_of_lt (hxy : x ≤ y) (hyz : y < z) : x < z := by
  obtain ⟨a, b, ha, hb, hab⟩ := le_iff.mp hxy
  obtain ⟨b', c, hb', hc, hbc⟩ := lt_iff.mp hyz
  obtain rfl : b = b' := Option.some.inj (hb.symm.trans hb')
  exact lt_iff.mpr ⟨a, c, ha, hc, Int.lt_of_le_of_lt hab hbc⟩

protected theorem le_of_lt (h : x < y) : x ≤ y := by
  obtain ⟨a, b, ha, hb, hab⟩ := lt_iff.mp h
  exact le_iff.mpr ⟨a, b, ha, hb, Int.le_of_lt hab⟩

protected theorem le_refl (h : x ≠ nan) : x ≤ x := by
  cases hp : x.place with
  | none => exact absurd (place_eq_none.mp hp) h
  | some a => exact le_iff.mpr ⟨a, a, hp, hp, Int.le_refl a⟩

protected theorem lt_of_not_le (hx : x ≠ nan) (hy : y ≠ nan) (h : ¬x ≤ y) : y < x := by
  cases ha : x.place with
  | none => exact absurd (place_eq_none.mp ha) hx
  | some a =>
    cases hb : y.place with
    | none => exact absurd (place_eq_none.mp hb) hy
    | some b =>
      refine lt_iff.mpr ⟨b, a, hb, ha, ?_⟩
      by_contra hle
      exact h (le_iff.mpr ⟨a, b, ha, hb, by omega⟩)

protected theorem not_le_of_lt (h : x < y) : ¬y ≤ x := by
  intro hle
  obtain ⟨a, b, ha, hb, hab⟩ := lt_iff.mp (Binary64.lt_of_lt_of_le h hle)
  obtain rfl : a = b := Option.some.inj (ha.symm.trans hb)
  exact Int.lt_irrefl a hab

theorem ne_nan_of_le_left (h : x ≤ y) : x ≠ nan := by
  rintro rfl
  obtain ⟨a, b, ha, _⟩ := le_iff.mp h
  cases ha

theorem ne_nan_of_le_right (h : x ≤ y) : y ≠ nan := by
  rintro rfl
  obtain ⟨a, b, _, hb, _⟩ := le_iff.mp h
  cases hb

theorem signed_lt_limit {s : Bool} {u : Nat} (h : Representable u) :
    -(limit : ℤ) < signed s u ∧ signed s u < limit := by
  have hu : (u : ℤ) < limit := by exact_mod_cast h.1
  unfold signed
  split <;> omega

theorem IsFinite.lt_infinity (h : x.IsFinite) : x < infinity false := by
  obtain ⟨s, u, hu, rfl⟩ := h
  exact lt_iff.mpr ⟨_, _, rfl, rfl, (signed_lt_limit hu).2⟩

theorem IsFinite.infinity_lt (h : x.IsFinite) : infinity true < x := by
  obtain ⟨s, u, hu, rfl⟩ := h
  exact lt_iff.mpr ⟨_, _, rfl, rfl, (signed_lt_limit hu).1⟩

theorem isFinite_of_le_of_le {a b : Binary64} (ha : a.IsFinite) (hb : b.IsFinite) (hax : a ≤ x)
    (hxb : x ≤ b) : x.IsFinite := by
  cases x with
  | nan => exact absurd rfl (ne_nan_of_le_right hax)
  | finite s u h => exact isFinite_finite s u h
  | infinity s =>
    obtain ⟨sa, ua, hua, rfl⟩ := ha
    obtain ⟨sb, ub, hub, rfl⟩ := hb
    obtain ⟨p, q, hp, hq, hpq⟩ := le_iff.mp hax
    obtain ⟨p', q', hp', hq', hpq'⟩ := le_iff.mp hxb
    cases hp
    cases hq
    cases hp'
    cases hq'
    have h1 := (signed_lt_limit (s := sa) hua).1
    have h2 := (signed_lt_limit (s := sb) hub).2
    cases s <;> simp only [signed] at * <;> split at hpq <;> split at hpq' <;> simp_all <;> omega

end Order

theorem isFinite_zero (s : Bool) : (zero s).IsFinite := isFinite_finite s 0 _

@[simp] theorem value_zero (s : Bool) : (zero s).value = 0 := by
  cases s <;> simp [zero, value]

theorem isValue_value (x : Binary64) : IsValue x.value := by
  cases x with
  | finite s u h => exact ⟨_, isFinite_finite s u h, rfl⟩
  | nan => exact ⟨zero false, isFinite_zero false, value_zero false⟩
  | infinity s => exact ⟨zero false, isFinite_zero false, value_zero false⟩

theorem place_neg (x : Binary64) : (-x).place = x.place.map (- ·) := by
  cases x with
  | nan => rfl
  | infinity s => exact congrArg some (signed_not s limit)
  | finite s u h => exact congrArg some (signed_not s u)

theorem isFinite_neg {x : Binary64} (h : x.IsFinite) : (-x).IsFinite := by
  obtain ⟨s, u, hu, rfl⟩ := h
  exact isFinite_finite (!s) u hu

@[simp] theorem value_neg (x : Binary64) : (-x).value = -x.value := by
  cases x with
  | nan => simp [value]
  | infinity s => exact neg_zero.symm
  | finite s u h =>
    change (signed (!s) u : ℚ) / unitsInOne = -((signed s u : ℚ) / unitsInOne)
    rw [signed_not, Int.cast_neg, neg_div]

theorem isFinite_abs {x : Binary64} (h : x.IsFinite) : x.abs.IsFinite := by
  obtain ⟨s, u, hu, rfl⟩ := h
  exact isFinite_finite false u hu

theorem value_abs (x : Binary64) : x.abs.value = |x.value| := by
  cases x with
  | nan => exact abs_zero.symm
  | infinity s => exact abs_zero.symm
  | finite s u h =>
    change (finite false u h).value = |(finite s u h).value|
    have habs : |(signed s u : ℚ)| = signed false u := by
      cases s <;> simp
    rw [value_finite, value_finite, abs_div, habs, abs_of_pos unitsInOne_pos]

theorem IsValue.neg {q : ℚ} (h : IsValue q) : IsValue (-q) := by
  obtain ⟨b, hb, rfl⟩ := h
  exact ⟨-b, isFinite_neg hb, value_neg b⟩

theorem IsValue.abs {q : ℚ} (h : IsValue q) : IsValue |q| := by
  obtain ⟨b, hb, rfl⟩ := h
  exact ⟨b.abs, isFinite_abs hb, value_abs b⟩

/-- A number with at most 53 binary digits, wherever they stand, is the value of a double. -/
theorem isValue_of_eq {q : ℚ} (digits places : ℤ) (hq : q = digits * 2 ^ places)
    (hd : |digits| < 2 ^ 53) (hlow : -1074 ≤ places) (hhigh : places ≤ 971) : IsValue q := by
  obtain ⟨k, rfl⟩ : ∃ k : ℕ, places = k - 1074 := ⟨(places + 1074).toNat, by omega⟩
  have hrep : Representable (digits.natAbs * 2 ^ k) :=
    representable_mul_two_pow (by zify; exact hd) (by omega)
  refine ⟨finite (decide (digits < 0)) _ hrep, isFinite_finite _ _ _, ?_⟩
  have hsigned : (signed (decide (digits < 0)) (digits.natAbs * 2 ^ k) : ℚ) = digits * 2 ^ k := by
    have hz : signed (decide (digits < 0)) (digits.natAbs * 2 ^ k) = digits * 2 ^ k := by
      have hsign : (if digits < 0 then -(digits.natAbs : ℤ) else digits.natAbs) = digits := by
        split <;> omega
      unfold signed
      simp only [decide_eq_true_eq, Nat.cast_mul, Nat.cast_pow, Nat.cast_ofNat]
      rw [← neg_mul, ← ite_mul, hsign]
    exact_mod_cast hz
  rw [value_finite, hsigned, hq, unitsInOne_eq, zpow_sub₀ (by norm_num), zpow_natCast,
    mul_div_assoc]

theorem isValue_two_zpow {places : ℤ} (hlow : -1074 ≤ places) (hhigh : places ≤ 1023) :
    IsValue (2 ^ places) := by
  rcases le_or_gt places 971 with h | h
  · exact isValue_of_eq 1 places (by norm_num) (by norm_num) hlow h
  · refine isValue_of_eq (2 ^ 52) (places - 52) ?_ (by norm_num) (by omega) (by omega)
    rw [show ((2 ^ 52 : ℤ) : ℚ) = 2 ^ (52 : ℤ) by norm_num, ← zpow_add₀ (by norm_num)]
    congr 1
    ring

theorem isValue_two_pow {n : ℕ} (h : n ≤ 1023) : IsValue (2 ^ n) := by
  rw [← zpow_natCast]
  exact isValue_two_zpow (by omega) (by omega)

theorem isValue_one_div_two_pow {n : ℕ} (h : n ≤ 1074) : IsValue (1 / 2 ^ n) := by
  rw [one_div, ← zpow_natCast, ← zpow_neg]
  exact isValue_two_zpow (by omega) (by omega)

/-- One less a part of it that is not below half the spacing under it. -/
theorem isValue_one_sub {n : ℕ} (h : n ≤ 53) : IsValue (1 - 1 / 2 ^ n) := by
  refine isValue_of_eq (2 ^ n - 1) (-n) ?_ ?_ (by omega) (by omega)
  · rw [zpow_neg, zpow_natCast]
    push_cast
    field_simp
  · have hone : (1 : ℤ) ≤ 2 ^ n := one_le_pow₀ (by norm_num)
    have htop : (2 : ℤ) ^ n ≤ 2 ^ 53 := pow_le_pow_right₀ (by norm_num) h
    rw [abs_of_nonneg (by omega)]
    omega

theorem isValue_natCast {n : ℕ} (h : n < 2 ^ 53) : IsValue n :=
  isValue_of_eq n 0 (by norm_num) (by simpa using h) (by norm_num) (by norm_num)

theorem isValue_zero : IsValue 0 := by
  simpa using isValue_natCast (n := 0) (by norm_num)

theorem isValue_one : IsValue 1 := by
  simpa using isValue_natCast (n := 1) (by norm_num)

theorem ofNat_eq_finite {n : ℕ} (h : n < 2 ^ 53) :
    ofNat n = finite false (n * unitsInOne) (representable_mul_unitsInOne h) :=
  ofQuotient_one false _

theorem isFinite_ofNat {n : ℕ} (h : n < 2 ^ 53) : (ofNat n).IsFinite := by
  rw [ofNat_eq_finite h]
  exact isFinite_finite _ _ _

theorem value_ofNat {n : ℕ} (h : n < 2 ^ 53) : (ofNat n).value = n := by
  rw [ofNat_eq_finite h]
  change (((n * unitsInOne : ℕ) : ℤ) : ℚ) / unitsInOne = n
  rw [Int.cast_natCast, Nat.cast_mul, mul_div_assoc, div_self unitsInOne_pos.ne', mul_one]

theorem isFinite_one : (1 : Binary64).IsFinite := isFinite_ofNat (by norm_num)

@[simp] theorem value_one : (1 : Binary64).value = 1 :=
  (value_ofNat (by norm_num)).trans Nat.cast_one

theorem isFinite_two : (2 : Binary64).IsFinite := isFinite_ofNat (by norm_num)

@[simp] theorem value_two : (2 : Binary64).value = 2 :=
  (value_ofNat (by norm_num)).trans (Nat.cast_ofNat)

theorem isFinite_numeral_zero : (0 : Binary64).IsFinite := isFinite_ofNat (by norm_num)

@[simp] theorem value_numeral_zero : (0 : Binary64).value = 0 :=
  (value_ofNat (by norm_num)).trans Nat.cast_zero

section Signs
variable {x : Binary64} (hx : x.IsFinite)
include hx

theorem IsFinite.pos_iff : 0 < x ↔ 0 < x.value := by
  rw [lt_iff_value_lt isFinite_numeral_zero hx, value_numeral_zero]

theorem IsFinite.nonneg_iff : 0 ≤ x ↔ 0 ≤ x.value := by
  rw [le_iff_value_le isFinite_numeral_zero hx, value_numeral_zero]

theorem IsFinite.nonpos_iff : x ≤ 0 ↔ x.value ≤ 0 := by
  rw [le_iff_value_le hx isFinite_numeral_zero, value_numeral_zero]

theorem IsFinite.lt_one_iff : x < 1 ↔ x.value < 1 := by
  rw [lt_iff_value_lt hx isFinite_one, value_one]

theorem IsFinite.le_one_iff : x ≤ 1 ↔ x.value ≤ 1 := by
  rw [le_iff_value_le hx isFinite_one, value_one]

end Signs

/-- Bounds by whole numbers, as they are found by comparing doubles. -/
theorem between_ofNat {x : Binary64} {m n : ℕ} (hm : m < 2 ^ 53) (hn : n < 2 ^ 53)
    (h : ofNat m ≤ x ∧ x ≤ ofNat n) : x.IsFinite ∧ m ≤ x.value ∧ x.value ≤ n := by
  have hx := isFinite_of_le_of_le (isFinite_ofNat hm) (isFinite_ofNat hn) h.1 h.2
  rw [le_iff_value_le (isFinite_ofNat hm) hx, le_iff_value_le hx (isFinite_ofNat hn),
    value_ofNat hm, value_ofNat hn] at h
  exact ⟨hx, h⟩

theorem abs_value_le_ofNat {x : Binary64} {n : ℕ} (hn : n < 2 ^ 53)
    (h : -ofNat n ≤ x ∧ x ≤ ofNat n) : x.IsFinite ∧ |x.value| ≤ n := by
  have hfin := isFinite_ofNat hn
  have hx := isFinite_of_le_of_le (isFinite_neg hfin) hfin h.1 h.2
  rw [le_iff_value_le (isFinite_neg hfin) hx, le_iff_value_le hx hfin, value_neg,
    value_ofNat hn] at h
  exact ⟨hx, abs_le.mpr h⟩

theorem isFinite_epsilon : epsilon.IsFinite := by
  obtain ⟨places, h, _, he⟩ := epsilon_eq_finite
  rw [he]
  exact isFinite_finite _ _ _

@[simp] theorem value_epsilon : epsilon.value = 1 / 2 ^ 52 := by
  obtain ⟨places, h, hplaces, he⟩ := epsilon_eq_finite
  rw [he]
  change (((2 ^ places : ℕ) : ℤ) : ℚ) / unitsInOne = 1 / 2 ^ 52
  rw [Int.cast_natCast, Nat.cast_pow, Nat.cast_ofNat, ← zpow_natCast, unitsInOne_eq,
    ← zpow_sub₀ (by norm_num), hplaces]
  norm_num

end BinomialLogit.Binary64
