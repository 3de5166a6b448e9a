import BinomialLogit.Column.Storage
import BinomialLogit.Decimal.Layout
import BinomialLogit.Text.Quoted

/-! What can be wrong with a call, by cause, and the text that reports it. Arguments are named by
text, elements by their position. -/

namespace BinomialLogit
set_option autoImplicit false
universe u

inductive Fault (F : Type u) where
  | empty (arg : String)
  | notDouble (arg : String) (found : Storage)
  | lengthMismatch (arg : String) (length expected : Nat)
  | unreadable (arg : String) (index : Nat) (text : String)
  | meanOutside (index : Nat) (value : F)
  | responseOutside (index : Nat) (value : F)
  | guardsRejected (threshold floor : F) (reason : String)
  deriving DecidableEq

namespace Fault

inductive Kind where
  /-- An argument has the wrong shape. -/
  | argument
  /-- A value lies outside the domain of the function applied to it. -/
  | domain
  /-- The configuration is refused. -/
  | configuration
  deriving DecidableEq

def kind {F : Type u} : Fault F → Kind
  | empty .. | notDouble .. | lengthMismatch .. | unreadable .. => .argument
  | meanOutside .. | responseOutside .. => .domain
  | guardsRejected .. => .configuration

def quoted (text : String) : String := String.ofList (Text.quote text.toList)

def message : Fault Binary64 → String
  | empty arg => "Argument " ++ arg ++ " must be a nonempty numeric vector"
  | notDouble arg found =>
    "Argument " ++ arg ++ " must be a nonempty numeric vector, got " ++ found.name ++ " vector"
  | lengthMismatch arg length expected =>
    "argument " ++ arg ++ " must be a numeric vector of length 1 or length " ++ expected.repr
      ++ ", got length " ++ length.repr
  | unreadable arg index text =>
    "argument " ++ arg ++ ": element " ++ index.repr ++ " (" ++ quoted text
      ++ ") cannot be coerced to a double"
  | meanOutside index value =>
    "Value " ++ value.positional ++ " at index " ++ index.repr ++ " out of range (0, 1)"
  | responseOutside index value =>
    "y values must be 0 <= y <= 1, got " ++ value.positional ++ " at index " ++ index.repr
  | guardsRejected threshold floor reason =>
    "Invalid saturation guards (threshold = " ++ threshold.positional ++ ", floor = "
      ++ floor.positional ++ "): " ++ reason

/-- The same fault seen from a vector in which `before` more elements come first. -/
def shift {F : Type u} (before : Nat) : Fault F → Fault F
  | unreadable arg index text => unreadable arg (before + index) text
  | meanOutside index value => meanOutside (before + index) value
  | responseOutside index value => responseOutside (before + index) value
  | fault => fault

end Fault

structure OutsideUnit (F : Type u) where
  value : F

def OutsideUnit.message (e : OutsideUnit Binary64) : String :=
  "Value " ++ e.value.positional ++ " out of range (0, 1)"

end BinomialLogit
