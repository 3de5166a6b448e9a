import BinomialLogit.Proofs.Column.Number
import BinomialLogit.Proofs.Text.Quoted

/-! A message tells which fault it reports. Its first word and, where two faults begin alike, its
last word give the kind of fault; names of arguments may be any text, and so they are found between
the fixed words before them and what is read from the end. -/

namespace BinomialLogit
set_option autoImplicit false
open Text

theorem toDigits_injective : Function.Injective (Nat.toDigits 10) := by
  intro m n h
  rw [← @Nat.ofDigitChars_ten_toDigits m, h, Nat.ofDigitChars_ten_toDigits]

theorem space_not_mem_toDigits (n : ℕ) : ' ' ∉ Nat.toDigits 10 n := by
  intro h
  cases Numeral.allDigits_toDigits n ' ' h

theorem space_not_mem_positional (x : Binary64) : ' ' ∉ x.positional.toList := by
  intro h
  cases Binary64.inNumber_of_mem_positional ' ' h

theorem eq_of_toList_positional {x y : Binary64}
    (h : x.positional.toList = y.positional.toList) : x = y :=
  Column.positional_injective (String.toList_injective h)

namespace Storage

theorem name_injective : Function.Injective name := by
  intro s t h
  cases s <;> cases t <;> simp_all [name]

theorem space_not_mem_name (s : Storage) : ' ' ∉ s.name.toList := by
  cases s <;> decide

end Storage

namespace Fault
variable {e e' : Fault Binary64} {arg arg' reason reason' text text' : String}
  {index index' length length' expected expected' : ℕ} {x y floor floor' : Binary64}
  {found found' : Storage}

def firstWord : Fault Binary64 → String
  | empty .. | notDouble .. => "Argument"
  | lengthMismatch .. | unreadable .. => "argument"
  | meanOutside .. => "Value"
  | responseOutside .. => "y"
  | guardsRejected .. => "Invalid"

/-- The message after its first word, parted at the words that vary. -/
def afterFirstWord : Fault Binary64 → List Char
  | empty arg => (arg.toList ++ " must be a nonempty".toList) ++ ' ' :: "numeric".toList
      ++ " vector".toList
  | notDouble arg found => (arg.toList ++ " must be a nonempty numeric vector, got".toList)
      ++ ' ' :: found.name.toList ++ " vector".toList
  | lengthMismatch arg length expected =>
    ((arg.toList ++ " must be a numeric vector of length 1 or length".toList)
      ++ ' ' :: Nat.toDigits 10 expected ++ ", got length".toList) ++ ' ' :: Nat.toDigits 10 length
  | unreadable arg index text =>
    (((arg.toList ++ ": element".toList) ++ ' ' :: Nat.toDigits 10 index ++ " (".toList)
      ++ quote text.toList ++ ") cannot be coerced to a".toList) ++ ' ' :: "double".toList
  | meanOutside index x => x.positional.toList ++ ' ' :: ("at index ".toList ++
      (Nat.toDigits 10 index ++ ' ' :: "out of range (0, 1)".toList))
  | responseOutside index x => "values must be 0 <= y <= 1, got ".toList ++
      (x.positional.toList ++ ' ' :: ("at index ".toList ++ Nat.toDigits 10 index))
  | guardsRejected threshold floor reason => "saturation guards (threshold = ".toList ++
      (threshold.positional.toList ++ ",".toList ++ ' ' :: ("floor = ".toList ++
        (floor.positional.toList ++ "):".toList ++ ' ' :: reason.toList)))

theorem toList_message (e : Fault Binary64) :
    e.message.toList = e.firstWord.toList ++ ' ' :: e.afterFirstWord := by
  unfold message firstWord afterFirstWord
  cases e <;> simp [quoted]

theorem space_not_mem_firstWord (e : Fault Binary64) : ' ' ∉ e.firstWord.toList := by
  unfold firstWord
  split <;> decide

theorem parts_of_message (h : e.message = e'.message) :
    e.firstWord = e'.firstWord ∧ e.afterFirstWord = e'.afterFirstWord := by
  have hlist := congrArg String.toList h
  rw [toList_message, toList_message] at hlist
  obtain ⟨hfirst, hafter⟩ :=
    word_append_inj e.space_not_mem_firstWord e'.space_not_mem_firstWord hlist
  exact ⟨String.toList_injective hfirst, hafter⟩

section Arguments

theorem empty_inj (h : (empty arg).afterFirstWord = (empty arg').afterFirstWord) : arg = arg' := by
  unfold afterFirstWord at h
  exact String.toList_injective
    (List.append_cancel_right (List.append_cancel_right (List.append_cancel_right h)))

theorem notDouble_inj (h : (notDouble arg found).afterFirstWord =
    (notDouble arg' found').afterFirstWord) : arg = arg' ∧ found = found' := by
  unfold afterFirstWord at h
  obtain ⟨harg, hname⟩ := append_word_inj found.space_not_mem_name found'.space_not_mem_name
    (List.append_cancel_right h)
  exact ⟨String.toList_injective (List.append_cancel_right harg),
    Storage.name_injective (String.toList_injective hname)⟩

theorem empty_ne_notDouble :
    (empty arg).afterFirstWord ≠ (notDouble arg' found).afterFirstWord := by
  intro h
  unfold afterFirstWord at h
  obtain ⟨-, hname⟩ := append_word_inj (show ' ' ∉ "numeric".toList by decide)
    found.space_not_mem_name (List.append_cancel_right h)
  cases found <;> simp [Storage.name] at hname

theorem lengthMismatch_inj (h : (lengthMismatch arg length expected).afterFirstWord =
    (lengthMismatch arg' length' expected').afterFirstWord) :
    arg = arg' ∧ length = length' ∧ expected = expected' := by
  unfold afterFirstWord at h
  obtain ⟨hbefore, hlength⟩ :=
    append_word_inj (space_not_mem_toDigits length) (space_not_mem_toDigits length') h
  obtain ⟨harg, hexpected⟩ := append_word_inj (space_not_mem_toDigits expected)
    (space_not_mem_toDigits expected') (List.append_cancel_right hbefore)
  exact ⟨String.toList_injective (List.append_cancel_right harg), toDigits_injective hlength,
    toDigits_injective hexpected⟩

theorem unreadable_inj (h : (unreadable arg index text).afterFirstWord =
    (unreadable arg' index' text').afterFirstWord) :
    arg = arg' ∧ index = index' ∧ text = text' := by
  have hopening : ∀ front : List Char, (front ++ " (".toList).getLast? ≠ some '\\' := by simp
  unfold afterFirstWord at h
  obtain ⟨hbefore, htext⟩ := append_quote_inj (hopening _) (hopening _)
    (List.append_cancel_right (List.append_cancel_right h))
  obtain ⟨harg, hindex⟩ := append_word_inj (space_not_mem_toDigits index)
    (space_not_mem_toDigits index') (List.append_cancel_right hbefore)
  exact ⟨String.toList_injective (List.append_cancel_right harg), toDigits_injective hindex,
    String.toList_injective htext⟩

theorem lengthMismatch_ne_unreadable : (lengthMismatch arg length expected).afterFirstWord ≠
    (unreadable arg' index text).afterFirstWord := by
  intro h
  unfold afterFirstWord at h
  obtain ⟨-, hlast⟩ := append_word_inj (space_not_mem_toDigits length)
    (show ' ' ∉ "double".toList by decide) h
  have hletter : 'd' ∈ Nat.toDigits 10 length := by simp [hlast]
  cases Numeral.allDigits_toDigits length 'd' hletter

end Arguments

section Values

theorem meanOutside_inj (h : (meanOutside index x).afterFirstWord =
    (meanOutside index' y).afterFirstWord) : index = index' ∧ x = y := by
  unfold afterFirstWord at h
  obtain ⟨hvalue, hafter⟩ :=
    word_append_inj (space_not_mem_positional x) (space_not_mem_positional y) h
  obtain ⟨hindex, -⟩ := word_append_inj (space_not_mem_toDigits index)
    (space_not_mem_toDigits index') (List.append_cancel_left hafter)
  exact ⟨toDigits_injective hindex, eq_of_toList_positional hvalue⟩

theorem responseOutside_inj (h : (responseOutside index x).afterFirstWord =
    (responseOutside index' y).afterFirstWord) : index = index' ∧ x = y := by
  unfold afterFirstWord at h
  obtain ⟨hvalue, hafter⟩ := word_append_inj (space_not_mem_positional x)
    (space_not_mem_positional y) (List.append_cancel_left h)
  exact ⟨toDigits_injective (List.append_cancel_left hafter), eq_of_toList_positional hvalue⟩

theorem guardsRejected_inj (h : (guardsRejected x floor reason).afterFirstWord =
    (guardsRejected y floor' reason').afterFirstWord) :
    x = y ∧ floor = floor' ∧ reason = reason' := by
  have hspace : ∀ (z : Binary64) (mark : String), ' ' ∉ mark.toList →
      ' ' ∉ z.positional.toList ++ mark.toList := by
    intro z mark hmark hmem
    rcases List.mem_append.mp hmem with hmem | hmem
    · exact space_not_mem_positional z hmem
    · exact hmark hmem
  have hcomma : ' ' ∉ ",".toList := by decide
  have hcolon : ' ' ∉ "):".toList := by decide
  unfold afterFirstWord at h
  obtain ⟨hthreshold, hafter⟩ := word_append_inj (hspace x "," hcomma) (hspace y "," hcomma)
    (List.append_cancel_left h)
  obtain ⟨hfloor, hreason⟩ := word_append_inj (hspace floor "):" hcolon)
    (hspace floor' "):" hcolon) (List.append_cancel_left hafter)
  exact ⟨eq_of_toList_positional (List.append_cancel_right hthreshold),
    eq_of_toList_positional (List.append_cancel_right hfloor), String.toList_injective hreason⟩

end Values

/-- No two faults are reported alike. -/
theorem message_injective : Function.Injective message := by
  intro e e' h
  obtain ⟨hfirst, hafter⟩ := parts_of_message h
  cases e with
  | empty arg =>
    cases e' with
    | empty arg' => rw [empty_inj hafter]
    | notDouble arg' found => exact absurd hafter empty_ne_notDouble
    | _ => simp [firstWord] at hfirst
  | notDouble arg found =>
    cases e' with
    | empty arg' => exact absurd hafter.symm empty_ne_notDouble
    | notDouble arg' found' =>
      obtain ⟨rfl, rfl⟩ := notDouble_inj hafter
      rfl
    | _ => simp [firstWord] at hfirst
  | lengthMismatch arg length expected =>
    cases e' with
    | lengthMismatch arg' length' expected' =>
      obtain ⟨rfl, rfl, rfl⟩ := lengthMismatch_inj hafter
      rfl
    | unreadable arg' index text => exact absurd hafter lengthMismatch_ne_unreadable
    | _ => simp [firstWord] at hfirst
  | unreadable arg index text =>
    cases e' with
    | lengthMismatch arg' length expected =>
      exact absurd hafter.symm lengthMismatch_ne_unreadable
    | unreadable arg' index' text' =>
      obtain ⟨rfl, rfl, rfl⟩ := unreadable_inj hafter
      rfl
    | _ => simp [firstWord] at hfirst
  | meanOutside index x =>
    cases e' with
    | meanOutside index' y =>
      obtain ⟨rfl, rfl⟩ := meanOutside_inj hafter
      rfl
    | _ => simp [firstWord] at hfirst
  | responseOutside index x =>
    cases e' with
    | responseOutside index' y =>
      obtain ⟨rfl, rfl⟩ := responseOutside_inj hafter
      rfl
    | _ => simp [firstWord] at hfirst
  | guardsRejected threshold floor reason =>
    cases e' with
    | guardsRejected threshold' floor' reason' =>
      obtain ⟨rfl, rfl, rfl⟩ := guardsRejected_inj hafter
      rfl
    | _ => simp [firstWord] at hfirst

end Fault

end BinomialLogit
