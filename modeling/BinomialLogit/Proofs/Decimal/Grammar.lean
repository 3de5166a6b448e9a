import BinomialLogit.Decimal.Numeral
import BinomialLogit.Proofs.Text.Trimmed
import Mathlib.Data.List.Forall2

/-! The grammar of numerals, and that reading accepts exactly what it derives. A part of a numeral
is recognised by what cannot go on with it: no sign begins a word or a number, no digit begins a
fraction or an exponent, no point begins an exponent. -/

namespace BinomialLogit.Numeral
set_option autoImplicit false
open Text

/-- At most one sign; true means a minus. -/
inductive Sign : List Char → Bool → Prop
  | absent : Sign [] false
  | plus : Sign ['+'] false
  | minus : Sign ['-'] true

def AllDigits (text : List Char) : Prop := ∀ c ∈ text, c.isDigit = true

inductive Fraction : List Char → List Char → Prop
  | absent : Fraction [] []
  | point {digits : List Char} (h : AllDigits digits) : Fraction ('.' :: digits) digits

inductive Exponent : List Char → Int → Prop
  | absent : Exponent [] 0
  | power {mark : Char} {sign digits : List Char} {negative : Bool}
    (hmark : mark = 'e' ∨ mark = 'E') (hsign : Sign sign negative) (hsome : digits ≠ [])
    (hdigits : AllDigits digits) : Exponent (mark :: (sign ++ digits))
      (if negative then -(Nat.ofDigitChars 10 digits 0 : Int) else Nat.ofDigitChars 10 digits 0)

def InAnyCase (word text : List Char) : Prop :=
  List.Forall₂ (fun letter c => c = letter ∨ c = letter.toUpper) word text

/-- Texts that are numerals, and what they denote. -/
inductive Spells : List Char → Numeral → Prop
  | nan {sign word : List Char} {negative : Bool} (hsign : Sign sign negative)
    (hword : InAnyCase ['n', 'a', 'n'] word) : Spells (sign ++ word) .nan
  | infinity {sign word : List Char} {negative : Bool} (hsign : Sign sign negative)
    (hword : InAnyCase ['i', 'n', 'f'] word ∨
      InAnyCase ['i', 'n', 'f', 'i', 'n', 'i', 't', 'y'] word) :
    Spells (sign ++ word) (.infinity negative)
  | decimal {sign whole point fraction tail : List Char} {negative : Bool} {exponent : Int}
    (hsign : Sign sign negative) (hwhole : AllDigits whole) (hfraction : Fraction point fraction)
    (hsome : whole ≠ [] ∨ fraction ≠ []) (htail : Exponent tail exponent) :
    Spells (sign ++ (whole ++ (point ++ tail)))
      (.decimal ⟨negative, Nat.ofDigitChars 10 (whole ++ fraction) 0, exponent - fraction.length⟩)

section Sign
variable {text sign rest : List Char} {negative : Bool}

def isSign (c : Char) : Bool := c = '+' ∨ c = '-'

theorem exists_sign (text : List Char) :
    ∃ sign, Sign sign (readSign text).1 ∧ text = sign ++ (readSign text).2 := by
  unfold readSign
  split
  · exact ⟨_, .minus, rfl⟩
  · exact ⟨_, .plus, rfl⟩
  · exact ⟨_, .absent, rfl⟩

theorem readSign_append (hsign : Sign sign negative) (hrest : ¬StartsWith isSign rest) :
    readSign (sign ++ rest) = (negative, rest) := by
  cases hsign with
  | plus => rfl
  | minus => rfl
  | absent =>
    cases rest with
    | nil => rfl
    | cons c rest =>
      rw [startsWith_cons] at hrest
      rw [List.nil_append]
      unfold readSign
      split
      · rename_i h
        cases h
        exact absurd rfl hrest
      · rename_i h
        cases h
        exact absurd rfl hrest
      · rfl

end Sign

section Exponent
variable {text : List Char} {exponent : Int}

theorem not_startsWith_isSign {digits : List Char} (h : AllDigits digits) :
    ¬StartsWith isSign digits := by
  cases digits with
  | nil => simp
  | cons c digits =>
    have hc := h c List.mem_cons_self
    rw [startsWith_cons]
    intro hsign
    rcases of_decide_eq_true hsign with rfl | rfl
    · exact absurd hc (by decide)
    · exact absurd hc (by decide)

theorem readExponent_cons {mark : Char} {rest digits : List Char} {negative : Bool}
    (h : readSign rest = (negative, digits)) : readExponent (mark :: rest) =
      if (mark = 'e' ∨ mark = 'E') ∧ digits ≠ [] ∧ digits.all Char.isDigit then
        some (if negative then -(Nat.ofDigitChars 10 digits 0 : Int)
          else Nat.ofDigitChars 10 digits 0)
      else none := by
  simp only [readExponent, h]

theorem readExponent_eq_some_iff : readExponent text = some exponent ↔ Exponent text exponent := by
  constructor
  · intro h
    cases text with
    | nil =>
      cases h
      exact .absent
    | cons mark rest =>
      obtain ⟨sign, hsign, hrest⟩ := exists_sign rest
      generalize hread : readSign rest = read at hsign hrest
      obtain ⟨negative, digits⟩ := read
      rw [readExponent_cons hread] at h
      rw [hrest]
      split at h
      · rename_i hvalid
        obtain ⟨hmark, hsome, hall⟩ := hvalid
        cases h
        exact .power hmark hsign hsome (List.all_eq_true.mp hall)
      · cases h
  · intro h
    cases h with
    | absent => rfl
    | power hmark hsign hsome hdigits =>
      rw [readExponent_cons (readSign_append hsign (not_startsWith_isSign hdigits))]
      exact if_pos ⟨hmark, hsome, List.all_eq_true.mpr hdigits⟩

/-- What follows the digits goes on with neither a digit nor a point. -/
theorem Exponent.not_startsWith (h : Exponent text exponent) :
    ¬StartsWith Char.isDigit text ∧ ¬StartsWith (fun c => decide (c = '.')) text := by
  cases h with
  | absent => simp
  | power hmark _ _ _ =>
    rcases hmark with rfl | rfl
    · simp only [startsWith_cons]
      decide
    · simp only [startsWith_cons]
      decide

end Exponent

section Fraction
variable {point digits tail : List Char}

theorem exists_fraction (text : List Char) : ∃ point, Fraction point (readFraction text).1 ∧
    text = point ++ (readFraction text).2 := by
  unfold readFraction
  split
  · rename_i rest
    refine ⟨_, .point (fun _ hc => List.mem_takeWhile_imp hc), ?_⟩
    rw [List.cons_append, List.takeWhile_append_dropWhile]
  · exact ⟨_, .absent, rfl⟩

theorem readFraction_append (hfraction : Fraction point digits)
    (hdigit : ¬StartsWith Char.isDigit tail)
    (hpoint : ¬StartsWith (fun c => decide (c = '.')) tail) :
    readFraction (point ++ tail) = (digits, tail) := by
  cases hfraction with
  | point hdigits =>
    obtain ⟨htake, hdrop⟩ := split_run hdigits hdigit
    rw [List.cons_append, readFraction, htake, hdrop]
  | absent =>
    rw [List.nil_append]
    unfold readFraction
    split
    · simp at hpoint
    · rfl

theorem Fraction.not_startsWith (hfraction : Fraction point digits)
    (htail : ¬StartsWith Char.isDigit tail) : ¬StartsWith Char.isDigit (point ++ tail) := by
  cases hfraction with
  | absent => exact htail
  | point _ =>
    rw [List.cons_append, startsWith_cons]
    decide

end Fraction

section Words
variable {word text : List Char} {letter c : Char}

theorem toLower_eq_iff (h : letter.isLower = true) :
    c.toLower = letter ↔ c = letter ∨ c = letter.toUpper := by
  delta Char.isLower at h
  delta Char.toLower Char.toUpper
  simp only [Bool.and_eq_true, decide_eq_true_eq, ge_iff_le, UInt32.le_iff_toNat_le] at h
  simp only [Char.ext_iff, ← UInt32.toNat_inj]
  have hA : 'A'.val.toNat = 65 := rfl
  have hZ : 'Z'.val.toNat = 90 := rfl
  have ha : 'a'.val.toNat = 97 := rfl
  have hz : 'z'.val.toNat = 122 := rfl
  have hdown : ('a'.val - 'A'.val).toNat = 32 := rfl
  have hup : ('A'.val - 'a'.val).toNat = 4294967264 := rfl
  have hlt := c.val.toNat_lt
  simp only [UInt32.le_iff_toNat_le, ge_iff_le] at *
  rw [dif_pos h]
  split
  · simp only [UInt32.toNat_add]
    omega
  · simp only [UInt32.toNat_add]
    omega

theorem map_toLower_eq_iff (h : ∀ c ∈ word, c.isLower = true) :
    text.map Char.toLower = word ↔ InAnyCase word text := by
  unfold InAnyCase
  induction word generalizing text with
  | nil => simp
  | cons letter word ih =>
    cases text with
    | nil => simp
    | cons c text =>
      have hletter := @toLower_eq_iff letter c (h letter List.mem_cons_self)
      have hword := @ih text fun c hc => h c (List.mem_cons_of_mem letter hc)
      simp [hletter, hword]

/-- The sign before a word is told from the word. -/
theorem InAnyCase.not_startsWith (h : InAnyCase (letter :: word) text)
    (hletter : isSign letter = false ∧ isSign letter.toUpper = false) :
    ¬StartsWith isSign text := by
  cases h with
  | cons hc _ =>
    rw [startsWith_cons]
    rcases hc with rfl | rfl
    · simp [hletter.1]
    · simp [hletter.2]

theorem map_toLower_eq_nan : text.map Char.toLower = ['n', 'a', 'n'] ↔
    InAnyCase ['n', 'a', 'n'] text :=
  map_toLower_eq_iff (List.all_eq_true.mp (by decide))

theorem map_toLower_eq_inf : text.map Char.toLower = ['i', 'n', 'f'] ↔
    InAnyCase ['i', 'n', 'f'] text :=
  map_toLower_eq_iff (List.all_eq_true.mp (by decide))

theorem map_toLower_eq_infinity :
    text.map Char.toLower = ['i', 'n', 'f', 'i', 'n', 'i', 't', 'y'] ↔
      InAnyCase ['i', 'n', 'f', 'i', 'n', 'i', 't', 'y'] text :=
  map_toLower_eq_iff (List.all_eq_true.mp (by decide))

end Words

section Decimals
variable {whole point fraction tail : List Char} {negative : Bool} {exponent : Int}

theorem readDecimal_eq_some (hwhole : AllDigits whole) (hfraction : Fraction point fraction)
    (hsome : whole ≠ [] ∨ fraction ≠ []) (htail : Exponent tail exponent) :
    readDecimal negative (whole ++ (point ++ tail)) = some
      ⟨negative, Nat.ofDigitChars 10 (whole ++ fraction) 0, exponent - fraction.length⟩ := by
  obtain ⟨hdigit, hpoint⟩ := htail.not_startsWith
  obtain ⟨htake, hdrop⟩ := split_run hwhole (hfraction.not_startsWith hdigit)
  have hempty : ¬(whole = [] ∧ fraction = []) := by
    intro h
    rcases hsome with hw | hf
    · exact hw h.1
    · exact hf h.2
  simp only [readDecimal, htake, hdrop, readFraction_append hfraction hdigit hpoint,
    readExponent_eq_some_iff.mpr htail, if_neg hempty, Option.map_some]

theorem exists_of_readDecimal {text : List Char} {d : Decimal}
    (h : readDecimal negative text = some d) : ∃ whole point fraction tail exponent,
      text = whole ++ (point ++ tail) ∧ AllDigits whole ∧ Fraction point fraction ∧
      (whole ≠ [] ∨ fraction ≠ []) ∧ Exponent tail exponent ∧
      d = ⟨negative, Nat.ofDigitChars 10 (whole ++ fraction) 0, exponent - fraction.length⟩ := by
  obtain ⟨point, hfraction, hdrop⟩ := exists_fraction (text.dropWhile Char.isDigit)
  have htext : text.takeWhile Char.isDigit ++ text.dropWhile Char.isDigit = text :=
    List.takeWhile_append_dropWhile
  have hwhole : AllDigits (text.takeWhile Char.isDigit) := fun _ hc => List.mem_takeWhile_imp hc
  simp only [readDecimal] at h
  split at h
  · cases h
  · rename_i hempty
    rw [Option.map_eq_some_iff] at h
    obtain ⟨exponent, hexponent, rfl⟩ := h
    refine ⟨_, point, _, _, exponent, ?_, hwhole, hfraction, ?_,
      readExponent_eq_some_iff.mp hexponent, rfl⟩
    · rw [← hdrop, htext]
    · by_contra hnone
      rw [not_or, not_not, not_not] at hnone
      exact hempty hnone

def isDigitOrPoint (c : Char) : Bool := c.isDigit || decide (c = '.')

theorem startsWith_decimal (hwhole : AllDigits whole) (hfraction : Fraction point fraction)
    (hsome : whole ≠ [] ∨ fraction ≠ []) :
    StartsWith isDigitOrPoint (whole ++ (point ++ tail)) := by
  cases whole with
  | cons c whole => simp [isDigitOrPoint, hwhole c List.mem_cons_self]
  | nil =>
    cases hfraction with
    | absent => simp at hsome
    | point _ => simp [isDigitOrPoint]

theorem not_isSign_of_startsWith {body : List Char} (h : StartsWith isDigitOrPoint body) :
    ¬StartsWith isSign body := by
  cases body with
  | nil => simp
  | cons c body =>
    rw [startsWith_cons] at h ⊢
    intro hsign
    rcases of_decide_eq_true hsign with rfl | rfl
    · exact absurd h (by decide)
    · exact absurd h (by decide)

theorem not_inAnyCase_of_startsWith {letter : Char} {word body : List Char}
    (h : StartsWith isDigitOrPoint body)
    (hletter : isDigitOrPoint letter = false ∧ isDigitOrPoint letter.toUpper = false) :
    ¬InAnyCase (letter :: word) body := by
  intro hword
  cases hword with
  | cons hc _ =>
    rw [startsWith_cons] at h
    rcases hc with rfl | rfl
    · simp [hletter.1] at h
    · simp [hletter.2] at h

end Decimals

theorem ofChars?_append {sign body : List Char} {negative : Bool} (hsign : Sign sign negative)
    (hbody : ¬StartsWith isSign body) : ofChars? (sign ++ body) =
      if body.map Char.toLower = ['n', 'a', 'n'] then some nan
      else if body.map Char.toLower = ['i', 'n', 'f'] ∨
          body.map Char.toLower = ['i', 'n', 'f', 'i', 'n', 'i', 't', 'y'] then
        some (infinity negative)
      else (readDecimal negative body).map decimal := by
  simp only [ofChars?, readSign_append hsign hbody]

theorem Spells.ofChars?_eq {text : List Char} {n : Numeral} (h : Spells text n) :
    ofChars? text = some n := by
  cases h with
  | nan hsign hword =>
    rw [ofChars?_append hsign (hword.not_startsWith (by decide))]
    exact if_pos (map_toLower_eq_nan.mpr hword)
  | infinity hsign hword =>
    have hstart : ¬StartsWith isSign _ :=
      hword.elim (·.not_startsWith (by decide)) (·.not_startsWith (by decide))
    have hlower := hword.imp map_toLower_eq_inf.mpr map_toLower_eq_infinity.mpr
    rw [ofChars?_append hsign hstart, if_neg, if_pos hlower]
    intro hnan
    rw [hnan] at hlower
    exact absurd hlower (by decide)
  | @decimal _ whole point _ tail negative _ hsign hwhole hfraction hsome htail =>
    have hread : readDecimal negative (whole ++ (point ++ tail)) = _ :=
      readDecimal_eq_some hwhole hfraction hsome htail
    have hstart : StartsWith isDigitOrPoint (whole ++ (point ++ tail)) :=
      startsWith_decimal hwhole hfraction hsome
    generalize whole ++ (point ++ tail) = body at hread hstart
    rw [ofChars?_append hsign (not_isSign_of_startsWith hstart), if_neg, if_neg, hread]
    · rfl
    · rw [map_toLower_eq_inf, map_toLower_eq_infinity]
      intro hword
      rcases hword with hword | hword
      · exact not_inAnyCase_of_startsWith hstart (by decide) hword
      · exact not_inAnyCase_of_startsWith hstart (by decide) hword
    · rw [map_toLower_eq_nan]
      exact not_inAnyCase_of_startsWith hstart (by decide)

theorem ofChars?_eq_some_iff {text : List Char} {n : Numeral} :
    ofChars? text = some n ↔ Spells text n := by
  constructor
  · intro h
    obtain ⟨sign, hsign, htext⟩ := exists_sign text
    simp only [ofChars?] at h
    generalize readSign text = read at h hsign htext
    obtain ⟨negative, body⟩ := read
    dsimp only at h hsign htext
    rw [htext]
    split at h
    · rename_i hnan
      cases h
      exact .nan hsign (map_toLower_eq_nan.mp hnan)
    · split at h
      · rename_i hinfinity
        cases h
        exact .infinity hsign
          (hinfinity.imp map_toLower_eq_inf.mp map_toLower_eq_infinity.mp)
      · rw [Option.map_eq_some_iff] at h
        obtain ⟨d, hd, rfl⟩ := h
        obtain ⟨whole, point, fraction, tail, exponent, rfl, hwhole, hfraction, hsome, htail,
          rfl⟩ := exists_of_readDecimal hd
        exact .decimal hsign hwhole hfraction hsome htail
  · intro h
    exact h.ofChars?_eq

end BinomialLogit.Numeral
