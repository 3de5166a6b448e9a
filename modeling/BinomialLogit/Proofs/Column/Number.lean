import BinomialLogit.Fault
import BinomialLogit.Proofs.Column.Character
import BinomialLogit.Proofs.Decimal.Layout

/-! Numbers as texts of a column. A numeral is read as the double nearest to it, and the text that
is written for a double is read as that double, with as few significant digits as any. -/

namespace BinomialLogit.Column
set_option autoImplicit false
open Text Numeral

section Reading
variable {arg text : String} {core : List Char} {d : Decimal} {before after : List (Option String)}

theorem exists_denoted_of_legible {xs : List (Option String)} (h : ∀ cell ∈ xs, Legible cell) :
    ∃ values, List.Forall₂ Denotes xs values := by
  obtain ⟨values, hvalues⟩ := (@exists_readCells_iff missing xs).mpr h
  exact ⟨values, readCells_eq_ok_iff.mp hvalues⟩

/-- What a cell denotes is found at its place, whatever legible cells stand around it. -/
theorem exists_coerce_eq_ok {cell : Option String} {x : Binary64}
    (hbefore : ∀ c ∈ before, Legible c) (hafter : ∀ c ∈ after, Legible c) (hx : Denotes cell x) :
    ∃ xs ys : List Binary64, xs.length = before.length ∧ ys.length = after.length ∧
      ((character (before ++ cell :: after)).coerce arg).outcome = .ok (xs ++ x :: ys) := by
  obtain ⟨xs, hxs⟩ := exists_denoted_of_legible hbefore
  obtain ⟨ys, hys⟩ := exists_denoted_of_legible hafter
  refine ⟨xs, ys, hxs.length_eq.symm, hys.length_eq.symm, ?_⟩
  rw [coerce_character, readCells_eq_ok_iff]
  exact List.rel_append hxs (.cons hx hys)

/-- A numeral of any length is read as the double nearest to the number it spells, of two equally
near ones as the one with the even significand, with its sign. -/
theorem coerce_correctlyRounded (arg : String) (hbefore : ∀ cell ∈ before, Legible cell)
    (hafter : ∀ cell ∈ after, Legible cell) (hcore : Stripped text.toList core)
    (hd : Spells core (.decimal d)) :
    ∃ (x : Binary64) (xs ys : List Binary64), d.CorrectlyRounded x ∧ xs.length = before.length ∧
      ys.length = after.length ∧
      ((character (before ++ some text :: after)).coerce arg).outcome = .ok (xs ++ x :: ys) := by
  have hdenotes : Denotes (some text) d.toBinary64 := .numeral hcore hd
  obtain ⟨xs, ys, hxs, hys, houtcome⟩ := exists_coerce_eq_ok hbefore hafter hdenotes
  exact ⟨d.toBinary64, xs, ys, d.correctlyRounded, hxs, hys, houtcome⟩

/-- Between 2^53 and 2^53 + 2, among a missing cell and an infinity. -/
theorem coerce_correctlyRounded_at_tie :
    (∀ cell ∈ [none], Legible cell) ∧ (∀ cell ∈ [some "-inf"], Legible cell) ∧
    Stripped "\t9007199254740993.000e0 ".toList "9007199254740993.000e0".toList ∧
    Spells "9007199254740993.000e0".toList (.decimal ⟨false, 9007199254740993000, -3⟩) ∧
    ∃ (x : Binary64) (xs ys : List Binary64),
      (⟨false, 9007199254740993000, -3⟩ : Decimal).CorrectlyRounded x ∧
      xs.length = [(none : Option String)].length ∧ ys.length = [some "-inf"].length ∧
      ((character ([none] ++ some "\t9007199254740993.000e0 " :: [some "-inf"])).coerce
        "mu").outcome = .ok (xs ++ x :: ys) := by
  have hbefore : ∀ cell ∈ [none], Legible cell := by
    intro cell hcell
    rw [List.mem_singleton.mp hcell]
    exact ⟨_, .absent⟩
  have hafter : ∀ cell ∈ [some "-inf"], Legible cell := by
    intro cell hcell
    rw [List.mem_singleton.mp hcell]
    exact ⟨_, readCell_eq_ok_iff.mp rfl⟩
  have hcore : Stripped "\t9007199254740993.000e0 ".toList "9007199254740993.000e0".toList :=
    trim_eq_iff.mp rfl
  have hd : Spells "9007199254740993.000e0".toList
      (.decimal ⟨false, 9007199254740993000, -3⟩) := ofChars?_eq_some_iff.mp rfl
  exact ⟨hbefore, hafter, hcore, hd, coerce_correctlyRounded "mu" hbefore hafter hcore hd⟩

end Reading

section Writing

theorem not_isBlank_of_inNumber {c : Char} (h : Binary64.inNumber c = true) : ¬IsBlank c := by
  rintro ⟨i, hi, hlow, hhigh⟩
  have hblank : ∀ i ∈ blanks, i.2 ≤ 0x20 ∨ 0x85 ≤ i.1 := by decide
  have hnumber : 0x20 < c.toNat ∧ c.toNat < 0x85 := by
    rw [Binary64.inNumber, Bool.or_eq_true, decide_eq_true_iff] at h
    rcases h with hdigit | hmem
    · obtain ⟨hfirst, hlast⟩ : 0x30 ≤ c.toNat ∧ c.toNat ≤ 0x39 :=
        Char.isDigit_iff_toNat.mp hdigit
      omega
    · have hall : ∀ c ∈ ['+', '-', '.', 'e', 'E', 'N', 'a', 'i', 'n', 'f'],
          0x20 < c.toNat ∧ c.toNat < 0x85 := by simp
      exact hall c hmem
  have hi := hblank i hi
  omega

/-- Nothing of a written number is white space. -/
theorem stripped_of_inNumber {text : List Char} (h : ∀ c ∈ text, Binary64.inNumber c = true) :
    Stripped text text := by
  have hnone : ∀ part : List Char, (∀ c ∈ part, c ∈ text) → ¬StartsWith blank part := by
    rintro part hpart ⟨c, hhead, hblank⟩
    have hc : c ∈ text := hpart c (List.mem_of_head? hhead)
    exact not_isBlank_of_inNumber (h c hc) (of_decide_eq_true hblank)
  constructor
  case around => exact ⟨[], [], nofun, nofun, by simp⟩
  case first => exact hnone text fun c hc => hc
  case last => exact hnone text.reverse fun c hc => List.mem_reverse.mp hc

theorem stripped_of_spells {text : List Char} {d : Decimal} (h : Spells text (.decimal d)) :
    Stripped text text :=
  stripped_of_inNumber fun _ hc => Binary64.inNumber_of_spells h hc

theorem denotes_positional (x : Binary64) : Denotes (some x.positional) x := by
  cases x with
  | nan => exact readCell_eq_ok_iff.mp rfl
  | infinity s => cases s <;> exact readCell_eq_ok_iff.mp rfl
  | finite s u h =>
    have hspells := Binary64.positional_finite_spells s h
    have hreads : (Decimal.shortest s u h).spread.toBinary64 = .finite s u h :=
      (Decimal.isShortest_shortest s h).spread.reads
    have hdenotes := Denotes.numeral (stripped_of_spells hspells) hspells
    rwa [Numeral.toBinary64, hreads] at hdenotes

theorem positional_injective : Function.Injective Binary64.positional := by
  intro x y hxy
  have hy := denotes_positional y
  rw [← hxy] at hy
  exact (denotes_positional x).eq hy

end Writing

structure ShownAs (x : Binary64) (text : String) : Prop where
  mean : ∀ i : ℕ, (Fault.meanOutside i x).message =
    "Value " ++ text ++ " at index " ++ i.repr ++ " out of range (0, 1)"
  response : ∀ i : ℕ, (Fault.responseOutside i x).message =
    "y values must be 0 <= y <= 1, got " ++ text ++ " at index " ++ i.repr
  threshold : ∀ (floor : Binary64) (reason : String),
    (Fault.guardsRejected x floor reason).message = "Invalid saturation guards (threshold = " ++
      text ++ ", floor = " ++ floor.positional ++ "): " ++ reason
  floor : ∀ (threshold : Binary64) (reason : String),
    (Fault.guardsRejected threshold x reason).message = "Invalid saturation guards (threshold = " ++
      threshold.positional ++ ", floor = " ++ text ++ "): " ++ reason
  scalar : (OutsideUnit.mk x).message = "Value " ++ text ++ " out of range (0, 1)"

/-- The text is a numeral for the decimal `d`, and a column of it is read as the number. -/
structure ReadsAs (arg text : String) (d : Decimal) (x : Binary64) : Prop where
  spells : ∃ core, Stripped text.toList core ∧ Spells core (.decimal d)
  outcome : ((character [some text]).coerce arg).outcome = .ok [x]

structure WrittenNumber (arg : String) (x : Binary64) : Prop where
  shown : ShownAs x x.positional
  reads : ∀ before after : List (Option String), (∀ cell ∈ before, Legible cell) →
    (∀ cell ∈ after, Legible cell) → ∃ xs ys : List Binary64, xs.length = before.length ∧
      ys.length = after.length ∧ ((character (before ++ some x.positional :: after)).coerce
        arg).outcome = .ok (xs ++ x :: ys)
  plain : x.IsFinite → Plain x.positional.toList
  /-- No decimal that is read as the number has fewer significant digits than the one shown, and
  none with as many is nearer. -/
  shortest : x.IsFinite → ∃ d, ReadsAs arg x.positional d x ∧
    (∀ text e, ReadsAs arg text e x → d.significant ≤ e.significant) ∧
    (∀ text e, ReadsAs arg text e x → e.significant = d.significant →
      |d.value - x.value| ≤ |e.value - x.value|) ∧
    ∃ e, ReadsAs arg x.scientific e x ∧ e.negative = d.negative ∧ e.value = d.value

section Written
variable {arg text : String} {x : Binary64} {d : Decimal}

theorem shownAs_positional (x : Binary64) : ShownAs x x.positional :=
  ⟨fun _ => rfl, fun _ => rfl, fun _ _ => rfl, fun _ _ => rfl, rfl⟩

theorem readsAs_iff : ReadsAs arg text d x ↔
    (∃ core, Stripped text.toList core ∧ Spells core (.decimal d)) ∧ d.toBinary64 = x := by
  have houtcome : ∀ core, Stripped text.toList core → Spells core (.decimal d) →
      ((character [some text]).coerce arg).outcome = .ok [d.toBinary64] := by
    intro core hcore hd
    rw [coerce_character, readCells_eq_ok_iff]
    exact .cons (.numeral hcore hd) .nil
  constructor
  · rintro ⟨⟨core, hcore, hd⟩, hx⟩
    rw [houtcome core hcore hd] at hx
    cases hx
    exact ⟨⟨core, hcore, hd⟩, rfl⟩
  · rintro ⟨⟨core, hcore, hd⟩, rfl⟩
    exact ⟨⟨core, hcore, hd⟩, houtcome core hcore hd⟩

end Written

/-- A number is shown by a text that is read as this number wherever it stands; a finite one in
plain notation and by a decimal of fewest digits, which the text with an exponent spells too. -/
theorem writtenNumber (arg : String) (x : Binary64) : WrittenNumber arg x := by
  constructor
  case shown => exact shownAs_positional x
  case reads =>
    intro before after hbefore hafter
    exact exists_coerce_eq_ok hbefore hafter (denotes_positional x)
  case plain =>
    rintro ⟨s, u, h, rfl⟩
    exact Binary64.plain_positional_finite s h
  case shortest =>
    rintro ⟨s, u, h, rfl⟩
    have hpositional := Binary64.positional_finite_spells s h
    have hscientific := Binary64.scientific_finite_spells s h
    have hshortest := Decimal.isShortest_shortest s h
    have hspread := hshortest.spread
    refine ⟨(Decimal.shortest s u h).spread, ?_, ?_, ?_, Decimal.shortest s u h, ?_, rfl, ?_⟩
    · exact readsAs_iff.mpr ⟨⟨_, stripped_of_spells hpositional, hpositional⟩, hspread.reads⟩
    · intro text e he
      exact hspread.fewest e (readsAs_iff.mp he).2
    · intro text e he
      exact hspread.nearest e (readsAs_iff.mp he).2
    · exact readsAs_iff.mpr ⟨⟨_, stripped_of_spells hscientific, hscientific⟩, hshortest.reads⟩
    · exact (Decimal.value_spread _).symm

end BinomialLogit.Column
