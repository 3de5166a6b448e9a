/-! Sums from left to right. Rounded addition is not associative, so the order is part of the
result. -/

namespace BinomialLogit
set_option autoImplicit false
universe u

def total {F : Type u} [Add F] [OfNat F 0] (xs : List F) : F := xs.foldl (· + ·) 0

end BinomialLogit
