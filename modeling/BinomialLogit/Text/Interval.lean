/-! Sets of characters given as intervals of code points, ends included. -/

namespace BinomialLogit.Text
set_option autoImplicit false

abbrev Interval := Nat × Nat

def Within (c : Char) (intervals : List Interval) : Prop :=
  ∃ i ∈ intervals, i.1 ≤ c.toNat ∧ c.toNat ≤ i.2

instance (c : Char) (intervals : List Interval) : Decidable (Within c intervals) :=
  inferInstanceAs (Decidable (∃ i ∈ intervals, i.1 ≤ c.toNat ∧ c.toNat ≤ i.2))

end BinomialLogit.Text
