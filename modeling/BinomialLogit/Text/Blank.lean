import BinomialLogit.Text.Interval

/-! White space: the characters with the property White_Space, and their removal at both ends of
a text. -/

namespace BinomialLogit.Text
set_option autoImplicit false

def blanks : List Interval :=
  [(0x9, 0xd), (0x20, 0x20), (0x85, 0x85), (0xa0, 0xa0), (0x1680, 0x1680), (0x2000, 0x200a),
    (0x2028, 0x2029), (0x202f, 0x202f), (0x205f, 0x205f), (0x3000, 0x3000)]

def IsBlank (c : Char) : Prop := Within c blanks

instance (c : Char) : Decidable (IsBlank c) := inferInstanceAs (Decidable (Within c blanks))

def trim (text : List Char) : List Char :=
  ((text.dropWhile fun c => decide (IsBlank c)).reverse.dropWhile fun c =>
    decide (IsBlank c)).reverse

end BinomialLogit.Text
