import BinomialLogit.Binary64.Rounding

/-! The four operations on doubles, each the exact result rounded once, with the usual rules for
zeros, infinities and NaNs; whole numbers as doubles and doubles as counts. -/

namespace BinomialLogit.Binary64
set_option autoImplicit false
attribute [local instance (2000)] instPowNat

protected def neg : Binary64 → Binary64
  | nan => nan
  | infinity s => infinity !s
  | finite s u h => finite (!s) u h

protected def abs : Binary64 → Binary64
  | nan => nan
  | infinity _ => infinity false
  | finite _ u h => finite false u h

/-- A sum that cancels is the positive zero; it is negative only where both terms are. -/
protected def add : Binary64 → Binary64 → Binary64
  | nan, _ | _, nan => nan
  | infinity s, infinity t => if s = t then infinity s else nan
  | infinity s, finite _ _ _ => infinity s
  | finite _ _ _, infinity t => infinity t
  | finite s u _, finite t v _ =>
    let total := signed s u + signed t v
    if total = 0 then zero (s && t) else ofQuotient (decide (total < 0)) total.natAbs 1

protected def sub (x y : Binary64) : Binary64 := x.add y.neg

protected def mul : Binary64 → Binary64 → Binary64
  | nan, _ | _, nan => nan
  | infinity s, infinity t => infinity (s ^^ t)
  | infinity s, finite t v _ => if v = 0 then nan else infinity (s ^^ t)
  | finite s u _, infinity t => if u = 0 then nan else infinity (s ^^ t)
  | finite s u _, finite t v _ => ofQuotient (s ^^ t) (u * v) unitsInOne

protected def div : Binary64 → Binary64 → Binary64
  | nan, _ | _, nan => nan
  | infinity _, infinity _ => nan
  | infinity s, finite t _ _ => infinity (s ^^ t)
  | finite s _ _, infinity t => zero (s ^^ t)
  | finite s u _, finite t v _ =>
    if v ≠ 0 then ofQuotient (s ^^ t) (u * unitsInOne) v
    else if u = 0 then nan else infinity (s ^^ t)

instance : Neg Binary64 := ⟨Binary64.neg⟩

instance : Add Binary64 := ⟨Binary64.add⟩

instance : Sub Binary64 := ⟨Binary64.sub⟩

instance : Mul Binary64 := ⟨Binary64.mul⟩

instance : Div Binary64 := ⟨Binary64.div⟩

def ofNat (n : Nat) : Binary64 := ofQuotient false (n * unitsInOne) 1

def ofInt (n : Int) : Binary64 := ofQuotient (decide (n < 0)) (n.natAbs * unitsInOne) 1

instance (n : Nat) : OfNat Binary64 n := ⟨ofNat n⟩

/-- The nearest whole number; a half goes away from zero. -/
def round : Binary64 → Binary64
  | nan => nan
  | infinity s => infinity s
  | finite s u _ => ofQuotient s ((2 * u + unitsInOne) / (2 * unitsInOne) * unitsInOne) 1

def maxCount : Nat := 2 ^ (64 : Nat) - 1

/-- The whole part as a count. What lies outside the counts goes to the nearer end, a NaN to
zero. -/
def toCount : Binary64 → Nat
  | nan => 0
  | infinity s => if s then 0 else maxCount
  | finite s u _ => if s then 0 else min (u / unitsInOne) maxCount

/-- The spacing of the doubles above one. -/
def epsilon : Binary64 := ofQuotient false (2 ^ (1022 : Nat)) 1

theorem epsilon_eq_finite :
    ∃ (places : Nat) (h : _), places = 1022 ∧ epsilon = finite false (2 ^ places) h :=
  ⟨1022, @representable_two_pow 1022 (by decide), rfl, by rw [epsilon, ofQuotient_one]⟩

attribute [irreducible] epsilon

theorem toCount_le (x : Binary64) : x.toCount ≤ maxCount := by
  unfold toCount
  split
  · exact Nat.zero_le _
  · split
    · exact Nat.zero_le _
    · exact Nat.le_refl _
  · split
    · exact Nat.zero_le _
    · exact Nat.min_le_right _ _

section Finite
variable {s t : Bool} {u v : Nat} {hu : Representable u} {hv : Representable v}

theorem finite_add_finite : finite s u hu + finite t v hv =
    if signed s u + signed t v = 0 then zero (s && t)
    else ofQuotient (decide (signed s u + signed t v < 0)) (signed s u + signed t v).natAbs 1 := by
  change Binary64.add _ _ = _
  rw [Binary64.add]

theorem finite_mul_finite :
    finite s u hu * finite t v hv = ofQuotient (s ^^ t) (u * v) unitsInOne := by
  change Binary64.mul _ _ = _
  rw [Binary64.mul]

theorem finite_div_finite (h : v ≠ 0) :
    finite s u hu / finite t v hv = ofQuotient (s ^^ t) (u * unitsInOne) v := by
  change Binary64.div _ _ = _
  rw [Binary64.div, if_pos h]

end Finite

@[simp] theorem neg_nan : -nan = nan := rfl

@[simp] theorem nan_add (x : Binary64) : nan + x = nan := rfl

@[simp] theorem add_nan (x : Binary64) : x + nan = nan := by cases x <;> rfl

@[simp] theorem nan_sub (x : Binary64) : nan - x = nan := rfl

@[simp] theorem sub_nan (x : Binary64) : x - nan = nan := by cases x <;> rfl

@[simp] theorem nan_mul (x : Binary64) : nan * x = nan := rfl

@[simp] theorem mul_nan (x : Binary64) : x * nan = nan := by cases x <;> rfl

@[simp] theorem nan_div (x : Binary64) : nan / x = nan := rfl

@[simp] theorem div_nan (x : Binary64) : x / nan = nan := by cases x <;> rfl

end BinomialLogit.Binary64
