import BinomialLogit.Text.Extending
import BinomialLogit.Text.Ignorable
import BinomialLogit.Text.Unprintable

/-! Quoted text: one line between double quotes from which the text can be read back. A quote or
a backslash inside is preceded by a backslash, and what would not be seen as itself is written as
an escape. -/

namespace BinomialLogit.Text
set_option autoImplicit false

/-- Characters with no short escape that are written by their code point. -/
def IsHidden (c : Char) : Prop := Within c unprintable ∨ Within c ignorable ∨ Within c extending

instance (c : Char) : Decidable (IsHidden c) := inferInstanceAs (Decidable (_ ∨ _ ∨ _))

def shortEscape? : Char → Option Char
  | '"' => some '"'
  | '\\' => some '\\'
  | '\n' => some 'n'
  | '\r' => some 'r'
  | '\t' => some 't'
  | '\x00' => some '0'
  | _ => none

def unescape? : Char → Option Char
  | '"' => some '"'
  | '\\' => some '\\'
  | 'n' => some '\n'
  | 'r' => some '\r'
  | 't' => some '\t'
  | '0' => some '\x00'
  | _ => none

def quoteChar (c : Char) : List Char :=
  match shortEscape? c with
  | some letter => ['\\', letter]
  | none =>
    if IsHidden c then '\\' :: 'u' :: '{' :: (Nat.toDigits 16 c.toNat ++ ['}']) else [c]

def quote (text : List Char) : List Char := '"' :: (text.flatMap quoteChar ++ ['"'])

theorem unescape?_of_shortEscape? {c letter : Char} (h : shortEscape? c = some letter) :
    unescape? letter = some c := by
  unfold shortEscape? at h
  split at h <;> cases h <;> rfl

/-- The number that hexadecimal digits denote, small letters standing for ten to fifteen. -/
def hexValue (digits : List Char) : Nat :=
  digits.foldl (fun value c =>
    16 * value + if c.isDigit then c.toNat - '0'.toNat else c.toNat - 'a'.toNat + 10) 0

/-- Reads up to the closing quote, which must be the last character. -/
def unquoteBody : List Char → Option (List Char)
  | [] => none
  | ['"'] => some []
  | '\\' :: 'u' :: '{' :: rest =>
    match h : rest.dropWhile (· ≠ '}') with
    | [] => none
    | _ :: after =>
      have : after.length < rest.length := by
        have := (List.dropWhile_sublist (l := rest) (· ≠ '}')).length_le
        rw [h, List.length_cons] at this
        exact this
      (unquoteBody after).map (Char.ofNat (hexValue (rest.takeWhile (· ≠ '}'))) :: ·)
  | '\\' :: letter :: rest => do
    let c ← unescape? letter
    (unquoteBody rest).map (c :: ·)
  | c :: rest => if c = '"' ∨ c = '\\' then none else (unquoteBody rest).map (c :: ·)
termination_by text => text.length
decreasing_by all_goals (simp only [List.length_cons]; omega)

def unquote : List Char → Option (List Char)
  | '"' :: rest => unquoteBody rest
  | _ => none

end BinomialLogit.Text
