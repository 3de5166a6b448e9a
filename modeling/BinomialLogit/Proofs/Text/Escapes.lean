import BinomialLogit.Fault
import BinomialLogit.Proofs.Text.Quoted

/-! What stands between the quotes of a quoted text: a text with escapes, which can be read in one
way only. Every quote in it is escaped and the closing one is not, so that a reader who does no more
than count backslashes finds the end, and every character in it is shown as itself, so that it
stays on its line. -/

namespace BinomialLogit.Text
set_option autoImplicit false

def IsHexDigit (c : Char) : Prop := c.isDigit = true ∨ 'a' ≤ c ∧ c ≤ 'f'

instance (c : Char) : Decidable (IsHexDigit c) := inferInstanceAs (Decidable (_ ∨ _))

/-- Texts with escapes, and what they stand for. Any character may be given by its code point, but
quotes and backslashes do not stand for themselves. -/
inductive Escaped : List Char → List Char → Prop
  | nil : Escaped [] []
  | plain {c : Char} {body text : List Char} (hquote : c ≠ '"') (hslash : c ≠ '\\')
    (h : Escaped body text) : Escaped (c :: body) (c :: text)
  | letter {letter c : Char} {body text : List Char} (hletter : unescape? letter = some c)
    (h : Escaped body text) : Escaped ('\\' :: letter :: body) (c :: text)
  | codePoint {digits body text : List Char} {c : Char} (hsome : digits ≠ [])
    (hdigits : ∀ d ∈ digits, IsHexDigit d) (hvalue : hexValue digits = c.toNat)
    (h : Escaped body text) :
    Escaped ('\\' :: 'u' :: '{' :: (digits ++ '}' :: body)) (c :: text)

/-- The character that comes after these is escaped: a backslash stands before it which is not
escaped itself. -/
def escaping (before : List Char) : Bool :=
  before.foldl (fun escaped c => !escaped && c == '\\') false

/-- No escape reaches beyond the piece, and the quotes in it are escaped. -/
structure Whole (piece : List Char) : Prop where
  ends : escaping piece = false
  quotes : ∀ before after, piece = before ++ '"' :: after → escaping before = true

/-- The controls (general category Cc) and the separators of lines and of paragraphs. -/
def lineBreaking : List Interval := [(0x0, 0x1f), (0x7f, 0x9f), (0x2028, 0x2029)]

section Reading
variable {body text other : List Char}

theorem not_mem_of_isHexDigit {c : Char} (hc : ¬IsHexDigit c) {digits : List Char}
    (h : ∀ d ∈ digits, IsHexDigit d) : c ∉ digits :=
  fun hmem => hc (h c hmem)

/-- Whatever was written with escapes, be it by hand, is read as what it stands for. -/
theorem Escaped.unquoteBody_eq (h : Escaped body text) :
    unquoteBody (body ++ ['"']) = some text := by
  induction h with
  | nil => rw [List.nil_append, unquoteBody]
  | plain hquote hslash _ ih =>
    rw [List.cons_append, unquoteBody_plain hquote hslash, ih]
    rfl
  | letter hletter _ ih =>
    rw [List.cons_append, List.cons_append, unquoteBody_letter hletter, ih]
    rfl
  | @codePoint digits body text c _ hdigits hvalue _ ih =>
    have hclosed : '}' ∉ digits := not_mem_of_isHexDigit (by decide) hdigits
    have hread := unquoteBody_digits hclosed (body ++ ['"'])
    rw [ih, hvalue, Char.ofNat_toNat] at hread
    simpa using hread

theorem Escaped.eq (h : Escaped body text) (h' : Escaped body other) : other = text := by
  have hread := h'.unquoteBody_eq
  rw [h.unquoteBody_eq] at hread
  exact (Option.some.inj hread).symm

end Reading

section Writing
variable {c d : Char} {body text : List Char}

theorem isHexDigit_of_mem_toDigits {n : Nat} (h : c ∈ Nat.toDigits 16 n) : IsHexDigit c := by
  have hdigit : ∀ d < 16, IsHexDigit (Nat.digitChar d) := by decide
  obtain ⟨d, hd, rfl⟩ := exists_digitChar_of_mem_toDigits h
  exact hdigit d hd

theorem Escaped.quoteChar_append (c : Char) (h : Escaped body text) :
    Escaped (quoteChar c ++ body) (c :: text) := by
  rcases quoteChar_cases c with ⟨letter, hletter, hc⟩ | hc | ⟨hquote, hslash, -, hc⟩
  · rw [hc]
    exact .letter (unescape?_of_shortEscape? hletter) h
  · have hpoint := Escaped.codePoint Nat.toDigits_ne_nil
      (fun _ => isHexDigit_of_mem_toDigits) (hexValue_toDigits c.toNat) h
    rw [hc]
    simpa using hpoint
  · rw [hc]
    exact .plain hquote hslash h

theorem escaped_flatMap (text : List Char) : Escaped (text.flatMap quoteChar) text := by
  induction text with
  | nil => exact .nil
  | cons c text ih => exact ih.quoteChar_append c

end Writing

section Quotes
variable {piece piece' body text : List Char}

theorem escaping_append (h : escaping piece = false) (rest : List Char) :
    escaping (piece ++ rest) = escaping rest := by
  unfold escaping at h ⊢
  rw [List.foldl_append, h]

theorem escaping_of_not_mem (h : '\\' ∉ piece) : escaping piece = false := by
  induction piece with
  | nil => rfl
  | cons c piece ih =>
    rw [List.mem_cons, not_or] at h
    have hc : escaping [c] = false := by simpa [escaping] using Ne.symm h.1
    exact (escaping_append hc piece).trans (ih h.2)

theorem Whole.append (h : Whole piece) (h' : Whole piece') : Whole (piece ++ piece') := by
  constructor
  case ends => rw [escaping_append h.ends, h'.ends]
  case quotes =>
    intro before after hsplit
    rcases List.append_eq_append_iff.mp hsplit with ⟨inner, rfl, hinner⟩ | ⟨inner, hpiece, hinner⟩
    · rw [escaping_append h.ends]
      exact h'.quotes inner after hinner
    · cases inner with
      | nil =>
        have hfirst : escaping [] = true := h'.quotes [] after hinner.symm
        cases hfirst
      | cons quote inner =>
        cases hinner
        exact h.quotes before inner hpiece

theorem whole_of_not_mem (hends : escaping piece = false) (hquote : '"' ∉ piece) :
    Whole piece := by
  refine ⟨hends, ?_⟩
  intro before after hsplit
  exact absurd (by simp [hsplit]) hquote

theorem whole_letter (letter : Char) : Whole ['\\', letter] := by
  constructor
  case ends => rfl
  case quotes =>
    intro before after hsplit
    match before, hsplit with
    | [], hsplit => cases hsplit
    | [slash], hsplit =>
      cases hsplit
      rfl
    | _ :: _ :: before, hsplit => simp at hsplit

theorem whole_codePoint {digits : List Char} (h : ∀ d ∈ digits, IsHexDigit d) :
    Whole ('\\' :: 'u' :: '{' :: (digits ++ ['}'])) := by
  have hslash : '\\' ∉ '{' :: (digits ++ ['}']) := by
    simpa using not_mem_of_isHexDigit (by decide) h
  have hquote : '"' ∉ '{' :: (digits ++ ['}']) := by
    simpa using not_mem_of_isHexDigit (by decide) h
  exact (whole_letter 'u').append (whole_of_not_mem (escaping_of_not_mem hslash) hquote)

theorem Escaped.whole (h : Escaped body text) : Whole body := by
  induction h with
  | nil => exact whole_of_not_mem rfl List.not_mem_nil
  | @plain c _ _ hquote hslash _ ih =>
    have hc : Whole [c] := whole_of_not_mem
      (escaping_of_not_mem (by simpa using Ne.symm hslash)) (by simpa using Ne.symm hquote)
    exact hc.append ih
  | @letter letter _ _ _ _ _ ih => exact (whole_letter letter).append ih
  | codePoint _ hdigits _ _ ih => simpa using (whole_codePoint hdigits).append ih

end Quotes

section Line
variable {c d : Char} {intervals intervals' : List Interval}

theorem Within.mono (hsub : ∀ i ∈ intervals, ∃ j ∈ intervals', j.1 ≤ i.1 ∧ i.2 ≤ j.2)
    (h : Within c intervals) : Within c intervals' := by
  obtain ⟨i, hi, hlow, hhigh⟩ := h
  obtain ⟨j, hj, hlow', hhigh'⟩ := hsub i hi
  exact ⟨j, hj, hlow'.trans hlow, hhigh.trans hhigh'⟩

theorem isHidden_of_lineBreaking (h : Within c lineBreaking) : IsHidden c :=
  .inl (h.mono (by decide +kernel))

def IsAsciiGraphic (c : Char) : Prop := 0x20 ≤ c.toNat ∧ c.toNat ≤ 0x7e

instance (c : Char) : Decidable (IsAsciiGraphic c) := inferInstanceAs (Decidable (_ ∧ _))

theorem IsAsciiGraphic.not_within (h : IsAsciiGraphic c)
    (houtside : ∀ i ∈ intervals, i.2 < 0x20 ∨ 0x7e < i.1) : ¬Within c intervals := by
  rintro ⟨i, hi, hlow, hhigh⟩
  obtain ⟨hge, hle⟩ := h
  rcases houtside i hi with hbelow | habove
  · omega
  · omega

theorem IsAsciiGraphic.not_isHidden (h : IsAsciiGraphic c) : ¬IsHidden c := by
  rintro (hc | hc | hc)
  · exact h.not_within (by decide +kernel) hc
  · exact h.not_within (by decide +kernel) hc
  · exact h.not_within (by decide +kernel) hc

theorem isAsciiGraphic_of_shortEscape? {letter : Char} (h : shortEscape? c = some letter) :
    IsAsciiGraphic letter := by
  unfold shortEscape? at h
  split at h <;> cases h <;> decide

theorem isAsciiGraphic_of_mem_toDigits {n : Nat} (h : c ∈ Nat.toDigits 16 n) :
    IsAsciiGraphic c := by
  have hdigit : ∀ d < 16, IsAsciiGraphic (Nat.digitChar d) := by decide
  obtain ⟨d, hd, rfl⟩ := exists_digitChar_of_mem_toDigits h
  exact hdigit d hd

/-- What cannot be seen is not among the characters that are written in its place. -/
theorem not_isHidden_of_mem_quoteChar (h : d ∈ quoteChar c) : ¬IsHidden d := by
  rcases quoteChar_cases c with ⟨letter, hletter, hc⟩ | hc | ⟨-, -, hshown, hc⟩
  · apply IsAsciiGraphic.not_isHidden
    simp only [hc, List.mem_cons, List.not_mem_nil, or_false] at h
    rcases h with rfl | rfl
    · decide
    · exact isAsciiGraphic_of_shortEscape? hletter
  · apply IsAsciiGraphic.not_isHidden
    simp only [hc, List.mem_cons, List.mem_append, List.not_mem_nil, or_false] at h
    rcases h with rfl | rfl | rfl | h | rfl
    · decide
    · decide
    · decide
    · exact isAsciiGraphic_of_mem_toDigits h
    · decide
  · rw [hc, List.mem_singleton] at h
    exact h ▸ hshown

end Line

/-- Between quotes `body` stands for `text`. -/
structure StandsFor (body text : List Char) : Prop where
  quotes : ∀ before after, body = before ++ '"' :: after → escaping before = true
  /-- The closing quote is not escaped. -/
  closing : escaping body = false
  oneLine : ∀ c ∈ body, ¬Within c lineBreaking
  /-- There is one way to undo the escapes. -/
  escaped : ∀ other, Escaped body other ↔ other = text
  unquoted : unquote ('"' :: (body ++ ['"'])) = some text

theorem standsFor_flatMap (text : List Char) : StandsFor (text.flatMap quoteChar) text := by
  have hescaped := escaped_flatMap text
  constructor
  case quotes => exact hescaped.whole.quotes
  case closing => exact hescaped.whole.ends
  case oneLine =>
    intro c hc hbreaking
    obtain ⟨d, -, hd⟩ := List.mem_flatMap.mp hc
    exact not_isHidden_of_mem_quoteChar hd (isHidden_of_lineBreaking hbreaking)
  case escaped =>
    intro other
    constructor
    · intro hother
      exact hescaped.eq hother
    · rintro rfl
      exact hescaped
  case unquoted => exact hescaped.unquoteBody_eq

/-- Text that looks like an escape, a NUL before a digit and a quote. -/
example : ['\\', 'u', '{', '4', '1', '}', '\x00', '1', '"'].flatMap quoteChar =
    ['\\', '\\', 'u', '{', '4', '1', '}', '\\', '0', '1', '\\', '"'] := by
  decide +kernel

end BinomialLogit.Text

namespace BinomialLogit.Fault

theorem quoted_eq (text : String) :
    quoted text = "\"" ++ String.ofList (text.toList.flatMap Text.quoteChar) ++ "\"" := by
  apply String.toList_injective
  simp [quoted, Text.quote]

/-- The text that could not be read stands in the message between parentheses and quotes, and is
recovered from there. -/
theorem message_unreadable_standsFor (arg : String) (index : Nat) (text : String) :
    ∃ body, Text.StandsFor body text.toList ∧
      (unreadable arg index text).message = "argument " ++ arg ++ ": element " ++ index.repr
        ++ " (" ++ ("\"" ++ String.ofList body ++ "\"") ++ ") cannot be coerced to a double" := by
  refine ⟨text.toList.flatMap Text.quoteChar, Text.standsFor_flatMap text.toList, ?_⟩
  rw [← quoted_eq]
  rfl

end BinomialLogit.Fault
