import BinomialLogit.Decimal.Basic

/-! Numerals: the written forms of doubles. A sign may come first; then either a word, in any
case, or decimal digits with at most one point and an optional power of ten. -/

namespace BinomialLogit
set_option autoImplicit false

/-- What a numeral denotes, before rounding. -/
inductive Numeral where
  | nan
  | infinity (negative : Bool)
  | decimal (value : Decimal)
  deriving DecidableEq

namespace Numeral

def toBinary64 : Numeral → Binary64
  | nan => .nan
  | infinity negative => .infinity negative
  | decimal value => value.toBinary64

/-- Takes off one sign; true means a minus. -/
def readSign : List Char → Bool × List Char
  | '-' :: rest => (true, rest)
  | '+' :: rest => (false, rest)
  | text => (false, text)

/-- What may follow the digits: nothing, or `e` with a signed number of at least one digit. -/
def readExponent : List Char → Option Int
  | [] => some 0
  | mark :: rest =>
    let (negative, digits) := readSign rest
    if (mark = 'e' ∨ mark = 'E') ∧ digits ≠ [] ∧ digits.all Char.isDigit then
      let size := Nat.ofDigitChars 10 digits 0
      some (if negative then -size else size)
    else none

def readFraction : List Char → List Char × List Char
  | '.' :: rest => (rest.takeWhile Char.isDigit, rest.dropWhile Char.isDigit)
  | text => ([], text)

/-- Digits with at most one point, at least one digit on either side of it. -/
def readDecimal (negative : Bool) (text : List Char) : Option Decimal :=
  let whole := text.takeWhile Char.isDigit
  let (fraction, rest) := readFraction (text.dropWhile Char.isDigit)
  if whole = [] ∧ fraction = [] then none
  else (readExponent rest).map fun exponent =>
    ⟨negative, Nat.ofDigitChars 10 (whole ++ fraction) 0, exponent - fraction.length⟩

def ofChars? (text : List Char) : Option Numeral :=
  let (negative, body) := readSign text
  let word := body.map Char.toLower
  if word = ['n', 'a', 'n'] then some nan
  else if word = ['i', 'n', 'f'] ∨ word = ['i', 'n', 'f', 'i', 'n', 'i', 't', 'y'] then
    some (infinity negative)
  else (readDecimal negative body).map decimal

def ofString? (text : String) : Option Numeral := ofChars? text.toList

end Numeral

end BinomialLogit
