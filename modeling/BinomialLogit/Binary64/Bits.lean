import BinomialLogit.Binary64.Basic

/-! The interchange format: sign, eleven binary digits of exponent, fifty-two of fraction. Counted
in units the format needs no case for subnormal numbers when it is written, since the leading
digit of a normal number carries into the exponent. -/

namespace BinomialLogit.Binary64
set_option autoImplicit false
attribute [local instance (2000)] instPowNat

def ofBits (bits : Nat) : Binary64 :=
  let negative := decide (bits / 2 ^ (63 : Nat) % 2 = 1)
  let exponent := bits / 2 ^ (52 : Nat) % 2 ^ (11 : Nat)
  let fraction := bits % 2 ^ (52 : Nat)
  if h : exponent = 2047 then
    if fraction = 0 then infinity negative else nan
  else if exponent = 0 then
    finite negative fraction
      (representable_of_lt (Nat.lt_trans (Nat.mod_lt _ (by decide)) (by decide)))
  else
    finite negative ((2 ^ (52 : Nat) + fraction) * 2 ^ (exponent - 1))
      (representable_mul_two_pow
        (by
          have : fraction < 2 ^ (52 : Nat) := Nat.mod_lt _ (by decide)
          omega)
        (by
          have : exponent < 2 ^ (11 : Nat) := Nat.mod_lt _ (by decide)
          omega))

def signBit (negative : Bool) : Nat := if negative then 2 ^ (63 : Nat) else 0

def toBits : Binary64 → Nat
  | nan => 2047 * 2 ^ (52 : Nat) + 2 ^ (51 : Nat)
  | infinity s => signBit s + 2047 * 2 ^ (52 : Nat)
  | finite s u _ => signBit s + (u.log2 - 52) * 2 ^ (52 : Nat) + u / granule u

end BinomialLogit.Binary64
