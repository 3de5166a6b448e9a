import BinomialLogit.Text.Quoted
import Mathlib.Data.List.TakeWhile

/-! Quoted text is read back as it was. A quote inside it always follows a backslash, so that the
opening quote can be found from the end of a line. -/

namespace BinomialLogit.Text
set_option autoImplicit false

section Hexadecimal
variable {c : Char}

theorem hexValue_append_digit (digits : List Char) (c : Char) :
    hexValue (digits ++ [c]) = 16 * hexValue digits + hexValue [c] := by
  unfold hexValue
  simp

theorem hexValue_digitChar {n : Nat} (h : n < 16) : hexValue [n.digitChar] = n := by
  have hall : ∀ n < 16, hexValue [n.digitChar] = n := by decide
  exact hall n h

theorem hexValue_toDigits (n : Nat) : hexValue (Nat.toDigits 16 n) = n := by
  induction n using Nat.strongRecOn with
  | ind n ih =>
    rcases Nat.lt_or_ge n 16 with hlt | hge
    · rw [Nat.toDigits_of_lt_base hlt, hexValue_digitChar hlt]
    · have hlast : n % 16 < 16 := Nat.mod_lt n (by decide)
      rw [Nat.toDigits_of_base_le (by decide) hge, hexValue_append_digit, ih (n / 16) (by omega),
        hexValue_digitChar hlast]
      omega

theorem exists_digitChar_of_mem_toDigits {n : Nat} (h : c ∈ Nat.toDigits 16 n) :
    ∃ d < 16, c = Nat.digitChar d := by
  induction n using Nat.strongRecOn with
  | ind n ih =>
    rcases Nat.lt_or_ge n 16 with hlt | hge
    · rw [Nat.toDigits_of_lt_base hlt, List.mem_singleton] at h
      exact ⟨n, hlt, h⟩
    · rw [Nat.toDigits_of_base_le (by decide) hge, List.mem_append, List.mem_singleton] at h
      rcases h with h | h
      · exact ih (n / 16) (by omega) h
      · exact ⟨n % 16, Nat.mod_lt n (by decide), h⟩

/-- The digits of a code point are no quotes, and the brace behind them is none of them. -/
theorem mem_toDigits_sixteen {n : Nat} (h : c ∈ Nat.toDigits 16 n) : c ≠ '"' ∧ c ≠ '}' := by
  have hdigit : ∀ d < 16, Nat.digitChar d ≠ '"' ∧ Nat.digitChar d ≠ '}' := by decide
  obtain ⟨d, hd, rfl⟩ := exists_digitChar_of_mem_toDigits h
  exact hdigit d hd

end Hexadecimal

section Reading
variable {c : Char} {text rest : List Char}

theorem quoteChar_cases (c : Char) :
    (∃ letter, shortEscape? c = some letter ∧ quoteChar c = ['\\', letter]) ∨
    quoteChar c = '\\' :: 'u' :: '{' :: (Nat.toDigits 16 c.toNat ++ ['}']) ∨
    (c ≠ '"' ∧ c ≠ '\\' ∧ ¬IsHidden c ∧ quoteChar c = [c]) := by
  unfold quoteChar
  split
  · rename_i letter h
    exact .inl ⟨letter, h, rfl⟩
  · rename_i h
    split
    · exact .inr (.inl rfl)
    · rename_i hshown
      refine .inr (.inr ⟨?_, ?_, hshown, rfl⟩)
      · rintro rfl
        cases h
      · rintro rfl
        cases h

theorem unquoteBody_letter {letter : Char} (h : unescape? letter = some c) :
    unquoteBody ('\\' :: letter :: rest) = (unquoteBody rest).map (c :: ·) := by
  have hletter : letter ≠ 'u' := by
    rintro rfl
    cases h
  rw [unquoteBody.eq_4 letter rest fun _ hu _ => hletter hu, h]
  rfl

theorem unquoteBody_digits {digits : List Char} (hdigits : '}' ∉ digits) (rest : List Char) :
    unquoteBody ('\\' :: 'u' :: '{' :: (digits ++ '}' :: rest)) =
      (unquoteBody rest).map (Char.ofNat (hexValue digits) :: ·) := by
  have hall : ∀ c ∈ digits, decide (c ≠ '}') = true := by
    intro c hc
    exact decide_eq_true (ne_of_mem_of_not_mem hc hdigits)
  have htake : (digits ++ '}' :: rest).takeWhile (· ≠ '}') = digits := by
    rw [List.takeWhile_append_of_pos hall]
    simp
  have hdrop : (digits ++ '}' :: rest).dropWhile (· ≠ '}') = '}' :: rest := by
    rw [List.dropWhile_append_of_pos hall]
    simp
  rw [unquoteBody]
  split
  · rename_i hnone
    cases hdrop.symm.trans hnone
  · rename_i hsome
    cases hdrop.symm.trans hsome
    dsimp only
    rw [htake]

theorem unquoteBody_codePoint (n : Nat) (rest : List Char) :
    unquoteBody ('\\' :: 'u' :: '{' :: (Nat.toDigits 16 n ++ '}' :: rest)) =
      (unquoteBody rest).map (Char.ofNat n :: ·) := by
  rw [unquoteBody_digits (fun h => (mem_toDigits_sixteen h).2 rfl), hexValue_toDigits]

theorem unquoteBody_plain (hquote : c ≠ '"') (hslash : c ≠ '\\') :
    unquoteBody (c :: rest) = (unquoteBody rest).map (c :: ·) := by
  rw [unquoteBody.eq_5 c rest (fun h _ => hquote h) (fun _ h _ => hslash h)
    fun _ _ h _ => hslash h, if_neg (not_or.mpr ⟨hquote, hslash⟩)]

theorem unquoteBody_quoteChar (c : Char) (rest : List Char) :
    unquoteBody (quoteChar c ++ rest) = (unquoteBody rest).map (c :: ·) := by
  rcases quoteChar_cases c with ⟨letter, hletter, hc⟩ | hc | ⟨hquote, hslash, -, hc⟩
  · rw [hc]
    exact unquoteBody_letter (unescape?_of_shortEscape? hletter)
  · rw [hc]
    simpa using unquoteBody_codePoint c.toNat rest
  · rw [hc]
    exact unquoteBody_plain hquote hslash

theorem unquote_quote (text : List Char) : unquote (quote text) = some text := by
  change unquoteBody (text.flatMap quoteChar ++ ['"']) = some text
  induction text with
  | nil => rw [List.flatMap_nil, List.nil_append, unquoteBody]
  | cons c text ih =>
    rw [List.flatMap_cons, List.append_assoc, unquoteBody_quoteChar, ih]
    rfl

theorem quote_injective : Function.Injective quote := by
  intro text text' h
  have hsome : some text = some text' := by
    rw [← unquote_quote text, h, unquote_quote]
  exact Option.some.inj hsome

end Reading

section Opening
variable {c : Char} {text text' front front' before after : List Char}

theorem before_quote_of_quoteChar (h : quoteChar c = before ++ '"' :: after) :
    before.getLast? = some '\\' := by
  rcases quoteChar_cases c with ⟨letter, -, hc⟩ | hc | ⟨hquote, -, -, hc⟩
  · rw [hc] at h
    match before, h with
    | [], h => cases h
    | [slash], h =>
      cases h
      rfl
    | _ :: _ :: before, h =>
      rw [List.cons_append, List.cons_append] at h
      simp at h
  · have hmem : '"' ∈ quoteChar c := by simp [h]
    have hdigits : '"' ∉ Nat.toDigits 16 c.toNat := fun h => (mem_toDigits_sixteen h).1 rfl
    simp [hc, hdigits] at hmem
  · have hmem : '"' ∈ quoteChar c := by simp [h]
    rw [hc, List.mem_singleton] at hmem
    exact absurd hmem.symm hquote

/-- A quote inside a quoted text follows a backslash. -/
theorem before_quote_of_flatMap (h : text.flatMap quoteChar = before ++ '"' :: after) :
    before.getLast? = some '\\' := by
  induction text generalizing before with
  | nil => simp at h
  | cons c text ih =>
    rw [List.flatMap_cons, List.append_eq_append_iff] at h
    rcases h with ⟨inner, rfl, hinner⟩ | ⟨inner, hc, hinner⟩
    · simp [List.getLast?_append, ih hinner]
    · cases inner with
      | nil =>
        have hslash : ([] : List Char).getLast? = some '\\' := ih hinner.symm
        cases hslash
      | cons quote inner =>
        cases hinner
        exact before_quote_of_quoteChar hc

/-- Were more of a line in front of a quoted text at its end, the text would begin at a quote of
another one and thus after a backslash. -/
theorem eq_nil_of_quote_eq_append {inner : List Char} (h : quote text = inner ++ quote text')
    (hinner : (front ++ inner).getLast? ≠ some '\\') : inner = [] := by
  cases inner with
  | nil => rfl
  | cons first before =>
    have hbody : first :: (before ++ quote text') = quote text := h.symm
    unfold quote at hbody
    rw [List.cons.injEq, ← List.cons_append, ← List.append_assoc] at hbody
    obtain ⟨-, hbody⟩ := hbody
    have hlast : before.getLast? = some '\\' :=
      before_quote_of_flatMap (List.append_cancel_right hbody).symm
    simp [List.getLast?_append, List.getLast?_cons, hlast] at hinner

/-- A quoted text at the end of a line is told from what comes before it. -/
theorem append_quote_inj (hfront : front.getLast? ≠ some '\\')
    (hfront' : front'.getLast? ≠ some '\\') (h : front ++ quote text = front' ++ quote text') :
    front = front' ∧ text = text' := by
  rcases List.append_eq_append_iff.mp h with ⟨inner, rfl, hinner⟩ | ⟨inner, rfl, hinner⟩
  · obtain rfl := eq_nil_of_quote_eq_append hinner hfront'
    exact ⟨(List.append_nil front).symm, quote_injective hinner⟩
  · obtain rfl := eq_nil_of_quote_eq_append hinner hfront
    exact ⟨List.append_nil front', (quote_injective hinner).symm⟩

end Opening

end BinomialLogit.Text
