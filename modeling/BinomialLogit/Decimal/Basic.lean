import BinomialLogit.Binary64.Arithmetic

/-! Decimals, kept exact, and the double nearest to one. -/

namespace BinomialLogit
set_option autoImplicit false
attribute [local instance (2000)] instPowNat

/-- The number `digits * 10 ^ exponent`, with a sign that a zero keeps. -/
structure Decimal where
  negative : Bool
  digits : Nat
  exponent : Int
  deriving DecidableEq

namespace Decimal

/-- The nearest double, a half going to the even neighbour. The first two bounds are far outside
the doubles and only keep the powers of ten small: beyond 10^400 all is infinite, and a number
below 10^-400 is less than half a unit. -/
def toBinary64 (d : Decimal) : Binary64 :=
  if d.digits = 0 ∨ d.exponent + d.digits.log2 < -400 then .zero d.negative
  else if 400 < d.exponent then .infinity d.negative
  else .ofQuotient d.negative (d.digits * 10 ^ d.exponent.toNat * Binary64.unitsInOne)
    (10 ^ (-d.exponent).toNat)

end Decimal

instance : OfScientific Binary64 where
  ofScientific digits below places :=
    Decimal.toBinary64 ⟨false, digits, if below then -places else places⟩

end BinomialLogit
