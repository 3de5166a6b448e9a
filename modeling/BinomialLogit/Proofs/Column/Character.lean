import BinomialLogit.Proofs.Binary64.Special
import BinomialLogit.Proofs.Decimal.Grammar
import BinomialLogit.Proofs.Rows

/-! Columns of texts read as doubles. A cell is legible when it is missing or when, without the
white space around it, it says so or is a numeral; the first cell that is not is reported by what
is left of its text. -/

namespace BinomialLogit.Column
set_option autoImplicit false
open Text Numeral

/-- What a cell may hold, and the double that it stands for. -/
inductive Denotes : Option String → Binary64 → Prop
  | absent : Denotes none .nan
  | missing {text : String} (h : Stripped text.toList missing.toList) : Denotes (some text) .nan
  | numeral {text : String} {core : List Char} {n : Numeral} (h : Stripped text.toList core)
    (hn : Spells core n) : Denotes (some text) n.toBinary64

def Legible (cell : Option String) : Prop := ∃ x, Denotes cell x

inductive NoNumber : Option String → Prop
  | absent : NoNumber none
  | missing {text : String} (h : Stripped text.toList missing.toList) : NoNumber (some text)
  | nan {text : String} {core : List Char} (h : Stripped text.toList core)
    (hn : Spells core .nan) : NoNumber (some text)

/-- The same cell, its text perhaps with more white space around it. -/
inductive Padded : Option String → Option String → Prop
  | absent : Padded none none
  | text {text before after : String} (hbefore : AllBlank before.toList)
    (hafter : AllBlank after.toList) : Padded (some text) (some (before ++ text ++ after))

/-- The cell at position `i` is the first illegible one, with the text `core` in it. -/
structure FirstIllegible (xs : List (Option String)) (i : Nat) (core : String) : Prop where
  cell : ∃ text, xs[i]? = some (some text) ∧ ¬Legible (some text) ∧
    Stripped text.toList core.toList
  before : ∀ (j : Nat) (cell : Option String), j < i → xs[j]? = some cell → Legible cell

section Cells
variable {text core : String} {cell cell' : Option String} {x : Binary64}

theorem readCell_some (text : String) : readCell (some text) = readText text := rfl

theorem readText_of_trim_eq {text' : String} (h : trim text.toList = trim text'.toList) :
    readText text = readText text' := by
  unfold readText
  rw [h]

theorem readText_missing (h : Stripped text.toList missing.toList) : readText text = .ok .nan := by
  unfold readText
  rw [h.trim_eq, String.ofList_toList]
  rfl

theorem not_spells_missing (n : Numeral) : ¬Spells missing.toList n := by
  intro h
  have hnone : ofChars? missing.toList = none := by decide
  rw [h.ofChars?_eq] at hnone
  cases hnone

theorem readText_numeral {core : List Char} {n : Numeral} (h : Stripped text.toList core)
    (hn : Spells core n) : readText text = .ok n.toBinary64 := by
  have hne : String.ofList core ≠ missing := by
    intro heq
    have hcore : core = missing.toList := by
      rw [← heq, String.toList_ofList]
    exact not_spells_missing n (hcore ▸ hn)
  unfold readText
  rw [h.trim_eq]
  simp only [if_neg hne, ofString?, String.toList_ofList, hn.ofChars?_eq]

theorem Denotes.readCell_eq (h : Denotes cell x) : readCell cell = .ok x := by
  cases h with
  | absent => rfl
  | missing h =>
    rw [readCell_some]
    exact readText_missing h
  | numeral h hn =>
    rw [readCell_some]
    exact readText_numeral h hn

theorem readText_cases (text : String) :
    (∃ x, readText text = .ok x ∧ Denotes (some text) x) ∨
      ∃ core, readText text = .error core ∧ Stripped text.toList core.toList := by
  have hstrip := stripped_trim text.toList
  unfold readText
  generalize trim text.toList = core at hstrip
  dsimp only
  split
  · rename_i hmissing
    refine .inl ⟨_, rfl, .missing ?_⟩
    rwa [← hmissing, String.toList_ofList]
  · split
    · rename_i n hn
      rw [ofString?, String.toList_ofList, ofChars?_eq_some_iff] at hn
      exact .inl ⟨_, rfl, .numeral hstrip hn⟩
    · refine .inr ⟨_, rfl, ?_⟩
      rwa [String.toList_ofList]

theorem readCell_eq_ok_iff : readCell cell = .ok x ↔ Denotes cell x := by
  constructor
  · intro h
    cases cell with
    | none =>
      cases h
      exact .absent
    | some text =>
      rcases readText_cases text with ⟨y, hread, hy⟩ | ⟨core, hread, -⟩
      · cases hread.symm.trans h
        exact hy
      · cases hread.symm.trans h
  · intro h
    exact h.readCell_eq

theorem Denotes.eq {y : Binary64} (hx : Denotes cell x) (hy : Denotes cell y) : x = y := by
  cases hx.readCell_eq.symm.trans hy.readCell_eq
  rfl

theorem exists_of_readCell_error (h : readCell cell = .error core) :
    ∃ text, cell = some text ∧ ¬Legible (some text) ∧ Stripped text.toList core.toList := by
  have hillegible : ¬Legible cell := by
    rintro ⟨x, hx⟩
    cases hx.readCell_eq.symm.trans h
  cases cell with
  | none => cases h
  | some text =>
    refine ⟨text, rfl, hillegible, ?_⟩
    rcases readText_cases text with ⟨y, hread, -⟩ | ⟨_, hread, hcore⟩
    · cases hread.symm.trans h
    · cases hread.symm.trans h
      exact hcore

example : readCell (some " +NA\t") = .error "+NA" := rfl

/-- What was handed back is no better legible, and comes back as it is. -/
theorem readCell_core (h : readCell cell = .error core) :
    readCell (some core) = .error core := by
  obtain ⟨text, rfl, -, hcore⟩ := exists_of_readCell_error h
  have htrim : trim core.toList = trim text.toList := by
    rw [hcore.trim_eq, hcore.self.trim_eq]
  rwa [readCell_some, readText_of_trim_eq htrim]

theorem Padded.readCell_eq (h : Padded cell cell') : readCell cell' = readCell cell := by
  cases h with
  | absent => rfl
  | text hbefore hafter =>
    rw [readCell_some, readCell_some]
    apply readText_of_trim_eq
    rw [String.toList_append, String.toList_append]
    exact trim_padded hbefore hafter

theorem toBinary64_eq_nan_iff {n : Numeral} : n.toBinary64 = .nan ↔ n = .nan := by
  constructor
  · intro h
    cases n with
    | nan => rfl
    | infinity negative => cases h
    | decimal value =>
      change value.toBinary64 = .nan at h
      unfold Decimal.toBinary64 at h
      split at h
      · cases h
      · split at h
        · cases h
        · exact absurd h (Binary64.ofQuotient_ne_nan _ _ _)
  · rintro rfl
    rfl

theorem denotes_nan_iff : Denotes cell .nan ↔ NoNumber cell := by
  constructor
  · intro h
    generalize hx : Binary64.nan = x at h
    cases h with
    | absent => exact .absent
    | missing h => exact .missing h
    | numeral h hn =>
      obtain rfl := toBinary64_eq_nan_iff.mp hx.symm
      exact .nan h hn
  · intro h
    cases h with
    | absent => exact .absent
    | missing h => exact .missing h
    | nan h hn => exact .numeral h hn

end Cells

section Outcomes
variable {arg : String} {xs xs' : List (Option String)}

def readCells (arg : String) (xs : List (Option String)) :
    Except (Fault Binary64) (List Binary64) :=
  mapLocated (.unreadable arg) readCell xs

theorem coerce_character (arg : String) (xs : List (Option String)) : (character xs).coerce arg =
    ⟨[.coercing arg .character xs.length], readCells arg xs⟩ := by
  rw [coerce_eq, values_character]
  rfl

theorem readCells_eq_ok_iff {values : List Binary64} :
    readCells arg xs = .ok values ↔ List.Forall₂ Denotes xs values := by
  unfold readCells
  rw [mapLocated_eq_ok_iff]
  simp only [readCell_eq_ok_iff]

theorem exists_denoted {values : List Binary64} {i : Nat} {cell : Option String}
    (h : List.Forall₂ Denotes xs values) (hcell : xs[i]? = some cell) :
    ∃ x, values[i]? = some x ∧ Denotes cell x := by
  obtain ⟨hi, rfl⟩ := List.getElem?_eq_some_iff.mp hcell
  have hi' : i < values.length := h.length_eq ▸ hi
  exact ⟨values[i], List.getElem?_eq_getElem hi', h.get hi hi'⟩

theorem exists_readCells_iff : (∃ values, readCells arg xs = .ok values) ↔
    ∀ cell ∈ xs, Legible cell := by
  constructor
  · rintro ⟨values, h⟩ cell hcell
    obtain ⟨i, hi⟩ := List.mem_iff_getElem?.mp hcell
    obtain ⟨x, -, hx⟩ := exists_denoted (readCells_eq_ok_iff.mp h) hi
    exact ⟨x, hx⟩
  · intro h
    apply exists_mapLocated_eq_ok
    intro cell hcell
    obtain ⟨x, hx⟩ := h cell hcell
    exact ⟨x, hx.readCell_eq⟩

theorem firstIllegible_of_firstError {i : Nat} {cell : Option String} {core : String}
    (h : FirstError readCell xs i cell core) : FirstIllegible xs i core := by
  constructor
  case cell =>
    obtain ⟨text, rfl, hillegible, hcore⟩ := exists_of_readCell_error h.error
    exact ⟨text, h.element, hillegible, hcore⟩
  case before =>
    intro j cell hj hcell
    obtain ⟨x, hx⟩ := h.before j cell hj hcell
    exact ⟨x, readCell_eq_ok_iff.mp hx⟩

theorem exists_firstIllegible (h : ¬∀ cell ∈ xs, Legible cell) :
    ∃ i core, FirstIllegible xs i core ∧ readCells arg xs = .error (.unreadable arg i core) := by
  have hread : ¬∀ cell ∈ xs, ∃ x, readCell cell = .ok x := by
    simp only [readCell_eq_ok_iff]
    exact h
  obtain ⟨i, cell, core, hfirst⟩ := exists_firstError hread
  exact ⟨i, core, firstIllegible_of_firstError hfirst, hfirst.mapLocated_eq⟩

/-- The text in a report is reported again wherever it is the first to be. -/
theorem readCells_core {i : Nat} {core : String}
    (h : readCells arg xs = .error (.unreadable arg i core)) (arg' : String)
    {before : List (Option String)} (after : List (Option String))
    (hbefore : ∀ cell ∈ before, Legible cell) :
    readCells arg' (before ++ some core :: after) =
      .error (.unreadable arg' before.length core) := by
  obtain ⟨_, cell, _, hfirst, hreport⟩ := exists_firstError_of_mapLocated h
  cases hreport
  have hagain : FirstError readCell (before ++ some core :: after) before.length (some core)
      core := by
    constructor
    case element => simp
    case error => exact readCell_core hfirst.error
    case before =>
      intro j cell hj hcell
      rw [List.getElem?_append_left hj] at hcell
      obtain ⟨x, hx⟩ := hbefore cell (List.mem_of_getElem? hcell)
      exact ⟨x, hx.readCell_eq⟩
  exact hagain.mapLocated_eq

theorem readCells_padded (h : List.Forall₂ Padded xs xs') :
    readCells arg xs' = readCells arg xs := by
  have hcells : xs'.map readCell = xs.map readCell := by
    induction h with
    | nil => rfl
    | cons hcell _ ih => rw [List.map_cons, List.map_cons, hcell.readCell_eq, ih]
  unfold readCells
  rw [← mapLocated_map, hcells, mapLocated_map]

end Outcomes

/-- What the reading of a column of texts comes to. -/
structure CharacterReading (arg : String) (xs : List (Option String)) : Prop where
  succeeds_iff : (∃ values, ((character xs).coerce arg).outcome = .ok values) ↔
    ∀ cell ∈ xs, Legible cell
  ok_iff : ∀ values, ((character xs).coerce arg).outcome = .ok values ↔
    List.Forall₂ Denotes xs values
  nan_iff : ∀ values : List Binary64, ((character xs).coerce arg).outcome = .ok values →
    ∀ (i : Nat) (cell : Option String), xs[i]? = some cell →
      (values[i]? = some Binary64.nan ↔ NoNumber cell)
  fault : (¬∀ cell ∈ xs, Legible cell) → ∃ i core, FirstIllegible xs i core ∧
    ((character xs).coerce arg).outcome = .error (.unreadable arg i core)
  padded : ∀ xs', List.Forall₂ Padded xs xs' →
    (character xs').coerce arg = (character xs).coerce arg
  reread : ∀ i core, ((character xs).coerce arg).outcome = .error (.unreadable arg i core) →
    ∀ (arg' : String) (before after : List (Option String)), (∀ cell ∈ before, Legible cell) →
      ((character (before ++ some core :: after)).coerce arg').outcome =
        .error (.unreadable arg' before.length core)

/-- A column of texts is read exactly when all of its cells are legible, each by itself. -/
theorem characterReading (arg : String) (xs : List (Option String)) : CharacterReading arg xs := by
  constructor
  case succeeds_iff =>
    rw [coerce_character]
    exact exists_readCells_iff
  case ok_iff =>
    intro values
    rw [coerce_character]
    exact readCells_eq_ok_iff
  case nan_iff =>
    intro values hvalues i cell hcell
    rw [coerce_character] at hvalues
    obtain ⟨x, hx, hdenotes⟩ := exists_denoted (readCells_eq_ok_iff.mp hvalues) hcell
    rw [hx, Option.some.injEq, ← denotes_nan_iff]
    constructor
    · intro h
      exact h ▸ hdenotes
    · intro h
      exact hdenotes.eq h
  case fault =>
    intro h
    rw [coerce_character]
    exact exists_firstIllegible h
  case padded =>
    intro xs' h
    rw [coerce_character, coerce_character, readCells_padded h, h.length_eq]
  case reread =>
    intro i core h arg' before after hbefore
    rw [coerce_character] at h ⊢
    exact readCells_core h arg' after hbefore

end BinomialLogit.Column
