/-! Double precision numbers. Finite magnitudes are counted in units of 2^-1074, the least
positive one, so that each is a natural number; it is representable when its binary digits fit
in 53 places and it lies below 2^1024. -/

namespace BinomialLogit
set_option autoImplicit false
-- The power of natural numbers is core's, whatever else is imported.
attribute [local instance (2000)] instPowNat

namespace Binary64

/-- The number one, in units. -/
def unitsInOne : Nat := 2 ^ (1074 : Nat)

/-- 2^1024 in units: the first power of two beyond the finite numbers. -/
def limit : Nat := 2 ^ (2098 : Nat)

/-- Spacing of the representable magnitudes between `units` and the next power of two. Below
2^53 units it stays at one unit, which gives the subnormal numbers. -/
def granule (units : Nat) : Nat := 2 ^ (units.log2 - 52)

def Representable (units : Nat) : Prop := units < limit ∧ granule units ∣ units

instance (units : Nat) : Decidable (Representable units) :=
  inferInstanceAs (Decidable (_ ∧ _))

end Binary64

/-- A double. All NaNs are one value and the zeros are two, so that `=` tells apart exactly the
bit patterns that a program can tell apart; the order below identifies the zeros. -/
inductive Binary64 where
  | nan
  | infinity (negative : Bool)
  | finite (negative : Bool) (units : Nat) (representable : Binary64.Representable units)
  deriving DecidableEq

namespace Binary64

theorem granule_pos (units : Nat) : 0 < granule units := Nat.two_pow_pos _

theorem unitsInOne_eq_two_pow : ∃ places : Nat, places = 1074 ∧ unitsInOne = 2 ^ places :=
  ⟨1074, rfl, by rw [unitsInOne]⟩

theorem limit_eq_two_pow : ∃ places : Nat, places = 2098 ∧ limit = 2 ^ places :=
  ⟨2098, rfl, by rw [limit]⟩

-- Numbers of this size are not to be computed while terms are compared.
attribute [irreducible] unitsInOne limit

/-- A magnitude with at most 53 significant digits is representable, wherever they stand. -/
theorem representable_mul_two_pow {digits places : Nat} (hd : digits < 2 ^ (53 : Nat))
    (hp : places ≤ 2045) : Representable (digits * 2 ^ places) := by
  constructor
  · calc digits * 2 ^ places < 2 ^ 53 * 2 ^ places :=
          Nat.mul_lt_mul_of_pos_right hd (Nat.two_pow_pos _)
      _ = 2 ^ (53 + places) := (Nat.pow_add 2 53 places).symm
      _ ≤ limit := by
        obtain ⟨n, hn, hl⟩ := limit_eq_two_pow
        exact hl ▸ Nat.pow_le_pow_right (by decide) (by omega)
  · rcases Nat.eq_zero_or_pos digits with rfl | h
    · simp
    · have hlt : (digits * 2 ^ places).log2 < 53 + places := by
        rw [Nat.log2_lt (Nat.ne_of_gt (Nat.mul_pos h (Nat.two_pow_pos _))), Nat.pow_add]
        exact Nat.mul_lt_mul_of_pos_right hd (Nat.two_pow_pos _)
      exact Nat.dvd_mul_left_of_dvd (Nat.pow_dvd_pow 2 (by omega)) digits

theorem representable_of_lt {units : Nat} (h : units < 2 ^ (53 : Nat)) : Representable units := by
  simpa using @representable_mul_two_pow units 0 h (Nat.zero_le _)

theorem representable_two_pow {places : Nat} (h : places ≤ 2045) :
    Representable (2 ^ places) := by
  simpa using @representable_mul_two_pow 1 places (by decide) h

theorem representable_zero : Representable 0 := representable_of_lt (Nat.two_pow_pos _)

def zero (negative : Bool) : Binary64 := finite negative 0 representable_zero

def signed (negative : Bool) (units : Nat) : Int := if negative then -units else units

/-- The place of a number on the line, in units; the infinities stand at the ends and a NaN has
no place. -/
def place : Binary64 → Option Int
  | nan => none
  | infinity negative => some (signed negative limit)
  | finite negative units _ => some (signed negative units)

/-- Holds of two numbers whose places are related; never of a NaN. -/
def Ordered (r : Int → Int → Prop) (x y : Binary64) : Prop :=
  match x.place, y.place with
  | some a, some b => r a b
  | _, _ => False

instance (r : Int → Int → Prop) [∀ a b, Decidable (r a b)] (x y : Binary64) :
    Decidable (Ordered r x y) := by
  unfold Ordered
  split <;> infer_instance

instance : LT Binary64 := ⟨Ordered (· < ·)⟩

instance : LE Binary64 := ⟨Ordered (· ≤ ·)⟩

instance (x y : Binary64) : Decidable (x < y) := inferInstanceAs (Decidable (Ordered _ x y))

instance (x y : Binary64) : Decidable (x ≤ y) := inferInstanceAs (Decidable (Ordered _ x y))

/-- Equality of numbers: the zeros agree and a NaN differs from everything. -/
def Agrees (x y : Binary64) : Prop := x ≤ y ∧ y ≤ x

instance (x y : Binary64) : Decidable (Agrees x y) := inferInstanceAs (Decidable (_ ∧ _))

def IsFinite (x : Binary64) : Prop := ∃ s u h, x = finite s u h

instance : (x : Binary64) → Decidable x.IsFinite
  | nan => isFalse (by rintro ⟨_, _, _, h⟩; cases h)
  | infinity _ => isFalse (by rintro ⟨_, _, _, h⟩; cases h)
  | finite s u h => isTrue ⟨s, u, h, rfl⟩

theorem lt_iff {x y : Binary64} :
    x < y ↔ ∃ a b, x.place = some a ∧ y.place = some b ∧ a < b := by
  change Ordered _ x y ↔ _
  unfold Ordered
  split <;> simp_all

theorem le_iff {x y : Binary64} :
    x ≤ y ↔ ∃ a b, x.place = some a ∧ y.place = some b ∧ a ≤ b := by
  change Ordered _ x y ↔ _
  unfold Ordered
  split <;> simp_all

theorem place_eq_none {x : Binary64} : x.place = none ↔ x = nan := by
  cases x <;> simp [place]

end Binary64

end BinomialLogit
