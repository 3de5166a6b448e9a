import BinomialLogit.Binary64.Bits

/-! The exponential and the natural logarithm. They are parameters of everything built on them,
so that a statement can assume of them what it needs and no more. -/

namespace BinomialLogit
set_option autoImplicit false
universe u

/-- An exponential and a logarithm; nothing ties them together here. -/
structure Elementary (F : Type u) where
  exp : F → F
  ln : F → F

namespace Binary64

private def throughMachine (f : Float → Float) (x : Binary64) : Binary64 :=
  ofBits (f (.ofBits (.ofNat x.toBits))).toBits.toNat

/-- The machine's own functions, as accurate as its mathematical library. -/
def machine : Elementary Binary64 where
  exp := throughMachine Float.exp
  ln := throughMachine Float.log

end Binary64

end BinomialLogit
