import BinomialLogit.Decimal.Shortest

/-! The two ways in which decimals are written: with all places and no exponent, as in messages,
and with one digit before the point and an exponent, as in tables of results. -/

namespace BinomialLogit
set_option autoImplicit false

namespace Decimal

def sign (negative : Bool) : List Char := if negative then ['-'] else []

/-- All places of the number. Digits are padded with zeros on the left until one of them stands
before the point; nothing follows the point but digits of the number. -/
def positional (d : Decimal) : List Char :=
  let digits := Nat.toDigits 10 d.digits ++ List.replicate d.exponent.toNat '0'
  let places := (-d.exponent).toNat
  if places = 0 then sign d.negative ++ digits
  else
    let padded := List.replicate (places + 1 - digits.length) '0' ++ digits
    let whole := padded.length - places
    sign d.negative ++ padded.take whole ++ '.' :: padded.drop whole

def exponentText (exponent : Int) : List Char :=
  'e' :: (sign (exponent < 0) ++ Nat.toDigits 10 exponent.natAbs)

/-- One digit before the point, and no point where no digit follows. -/
def scientific (d : Decimal) : List Char :=
  match Nat.toDigits 10 d.digits with
  | [] => []
  | [first] => sign d.negative ++ first :: exponentText d.exponent
  | first :: rest =>
    sign d.negative ++ first :: '.' :: (rest ++ exponentText (d.exponent + rest.length))

end Decimal

namespace Binary64

def written (layout : Decimal → List Char) : Binary64 → String
  | nan => "NaN"
  | infinity negative => String.ofList (Decimal.sign negative ++ ['i', 'n', 'f'])
  | finite negative units h => String.ofList (layout (Decimal.shortest negative units h))

def positional (x : Binary64) : String := x.written Decimal.positional

def scientific (x : Binary64) : String := x.written Decimal.scientific

end Binary64

end BinomialLogit
