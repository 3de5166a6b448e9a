import BinomialLogit.Decimal.Basic

/-! The shortest decimal that reads back as a given double. Every magnitude is a whole number of
units, so it has a finite decimal expansion at the exponent -1074. Grids of powers of ten are
tried from the coarse ones down; on each grid only the two neighbours of the magnitude can be
nearest to it. -/

namespace BinomialLogit
set_option autoImplicit false
attribute [local instance (2000)] instPowNat

namespace Decimal

/-- The digits of a magnitude at the exponent -1074: a unit is 5^1074 of them. -/
def exactDigits (units : Nat) : Nat := units * 5 ^ (1074 : Nat)

theorem exactDigits_eq (units : Nat) :
    ∃ places : Nat, places = 1074 ∧ exactDigits units = units * 5 ^ places :=
  ⟨1074, rfl, by rw [exactDigits]⟩

/-- The neighbours of a magnitude among the multiples of `10 ^ dropped`, counted from the last
exact digit, the nearer one first. Of two equally near ones the greater comes first. -/
def neighbours (units dropped : Nat) : List Decimal :=
  let step := 10 ^ dropped
  let below := exactDigits units / step
  let rest := exactDigits units % step
  let exponent : Int := dropped - 1074
  let lower : Decimal := ⟨false, below, exponent⟩
  let upper : Decimal := ⟨false, below + 1, exponent⟩
  if 2 * rest < step then [lower, upper] else [upper, lower]

/-- Tries the grid of `dropped` digits and then the finer ones. The finest is exact. -/
def shortestFrom (units : Nat) (target : Binary64) : Nat → Decimal
  | 0 => ⟨false, exactDigits units, -1074⟩
  | dropped + 1 =>
    ((neighbours units (dropped + 1)).find? (·.toBinary64 = target)).getD
      (shortestFrom units target dropped)

/-- Enough digits to drop: 2^93 is less than 10^28, so the step of this grid exceeds the
magnitude. -/
def coarsest (units : Nat) : Nat := 28 * ((exactDigits units).log2 / 93 + 1)

/-- The decimal with the fewest digits that reads back as the given finite number, nearest to it
among those. -/
def shortest (negative : Bool) (units : Nat) (h : Binary64.Representable units) : Decimal :=
  if units = 0 then ⟨negative, 0, 0⟩
  else { shortestFrom units (.finite false units h) (coarsest units) with negative }

theorem toBinary64_of_mem_find {units dropped : Nat} {target : Binary64} {d : Decimal}
    (h : (neighbours units dropped).find? (·.toBinary64 = target) = some d) :
    d.toBinary64 = target := by
  simpa using List.find?_some h

end Decimal

end BinomialLogit
