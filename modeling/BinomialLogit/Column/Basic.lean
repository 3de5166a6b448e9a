import BinomialLogit.Binary64.Arithmetic
import BinomialLogit.Column.Storage

/-! Columns as they come from a table: doubles, or elements of another storage any of which may be
missing. -/

namespace BinomialLogit
set_option autoImplicit false

inductive Column where
  | double (values : List Binary64)
  | integer (values : List (Option Int32))
  | logical (values : List (Option Bool))
  | character (values : List (Option String))

namespace Column

def storage : Column → Storage
  | double _ => .double
  | integer _ => .integer
  | logical _ => .logical
  | character _ => .character

def length : Column → Nat
  | double values => values.length
  | integer values => values.length
  | logical values => values.length
  | character values => values.length

def isEmpty (c : Column) : Bool := c.length = 0

/-- Equality of columns: one storage and equal elements, where doubles are equal as numbers and
missing elements are equal to each other. -/
def Agrees : Column → Column → Prop
  | double xs, double ys => xs.length = ys.length ∧ ∀ p ∈ xs.zip ys, p.1.Agrees p.2
  | integer xs, integer ys => xs = ys
  | logical xs, logical ys => xs = ys
  | character xs, character ys => xs = ys
  | _, _ => False

instance (a b : Column) : Decidable (a.Agrees b) := by
  unfold Agrees
  split <;> infer_instance

end Column

end BinomialLogit
