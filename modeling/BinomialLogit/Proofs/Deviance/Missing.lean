import BinomialLogit.Proofs.Column.Character
import BinomialLogit.Proofs.Column.Entry
import BinomialLogit.Proofs.Deviance.Terms

/-! Missing values in deviance residuals. A row that lacks its response, its mean or its weight has no
residual, and every other row has one, a number or an infinity. So a missing element of a column is
felt in exactly the rows that the column's elements go to. -/

namespace BinomialLogit
set_option autoImplicit false
open Binary64

section Row
variable {fns : Elementary Binary64} {v m w : Binary64}

theorem logRatioTerm_nan : fns.logRatioTerm nan m = nan := by
  have hne : ¬((nan : Binary64) ≤ 0 ∧ 0 ≤ (nan : Binary64)) := fun h => ne_nan_of_le_left h.1 rfl
  unfold Elementary.logRatioTerm
  rw [if_neg hne, nan_mul]

theorem logRatioTerm_nan_mean (hnan : fns.ln nan = nan) {y : Binary64} (hy : y.IsFinite)
    (hpos : 0 < y.value) : fns.logRatioTerm y nan = nan := by
  have hne : ¬(y ≤ 0 ∧ 0 ≤ y) := fun h => absurd (hy.nonpos_iff.mp h.1) (not_le.mpr hpos)
  unfold Elementary.logRatioTerm
  rw [if_neg hne, div_nan, hnan, mul_nan]

/-- The halves never both drop the mean: a response and its complement are not both zero. -/
theorem divergenceAt_nan_mean (hnan : fns.ln nan = nan) (hv : InUnit v) :
    fns.divergenceAt v nan = nan := by
  obtain ⟨hfin, h0, -⟩ := inUnit_iff.mp hv
  unfold Elementary.divergenceAt
  rcases h0.eq_or_lt with hzero | hpos
  · have hround := rounds_one_sub hfin
    rw [← hzero, sub_zero] at hround
    obtain ⟨hone, hvalue⟩ := hround.eq_of_isValue isValue_one
    rw [sub_nan, logRatioTerm_nan_mean hnan hone (by rw [hvalue]; norm_num), add_nan]
  · rw [logRatioTerm_nan_mean hnan hfin hpos, nan_add]

theorem divergenceAt_nan : fns.divergenceAt nan m = nan := by
  unfold Elementary.divergenceAt
  rw [logRatioTerm_nan, nan_add]

theorem devianceAt_of_nan (hnan : fns.ln nan = nan) (hv : v = nan ∨ InUnit v)
    (h : v = nan ∨ m = nan ∨ w = nan) : fns.devianceAt v m w = nan := by
  rw [devianceAt_eq]
  rcases h with rfl | rfl | rfl
  · rw [divergenceAt_nan, mul_nan]
  · rcases hv with rfl | hv
    · rw [divergenceAt_nan, mul_nan]
    · rw [divergenceAt_nan_mean hnan hv, mul_nan]
  · rw [mul_nan, nan_mul]

theorem devianceAt_ne_nan (hln : LnFinite fns.ln)
    (hinfinity : fns.ln (infinity false) = infinity false) (hv : InUnit v) (hm : Interior m)
    (hw : w.IsFinite) (hpos : 0 < w.value) (hbound : w.value ≤ 2 ^ 1022) :
    fns.devianceAt v m w ≠ nan := by
  obtain ⟨hfin, hvalue⟩ := value_two_mul hw ((abs_of_pos hpos).trans_le hbound)
  have hne : (2 * w).value ≠ 0 := by
    rw [hvalue]
    exact (mul_pos zero_lt_two hpos).ne'
  exact mul_ne_nan hfin hne (divergenceAt_ne_nan hln hv hm hinfinity)

end Row

namespace Column

/-- The elements that stand for no number. -/
inductive MissingAt : Column → ℕ → Prop
  | double {xs : List Binary64} {i : ℕ} (h : xs[i]? = some nan) : MissingAt (.double xs) i
  | integer {xs : List (Option Int32)} {i : ℕ} (h : xs[i]? = some none) : MissingAt (.integer xs) i
  | logical {xs : List (Option Bool)} {i : ℕ} (h : xs[i]? = some none) : MissingAt (.logical xs) i
  | character {xs : List (Option String)} {i : ℕ} {cell : Option String} (h : xs[i]? = some cell)
    (hcell : NoNumber cell) : MissingAt (.character xs) i

def reached (c : Column) (i : ℕ) : ℕ := if c.length = 1 then 0 else i

variable {arg : String} {c : Column} {xs : List Binary64} {i : ℕ}

theorem ofInt_ne_nan (n : ℤ) : ofInt n ≠ nan := ofQuotient_ne_nan _ _ _

theorem ofTruth_ne_nan (b : Bool) : ofTruth b ≠ nan := by
  cases b with
  | true => exact isFinite_one.ne_nan
  | false => exact isFinite_numeral_zero.ne_nan

theorem getElem?_map_elim {α : Type} {f : α → Binary64} (hf : ∀ a, f a ≠ nan)
    {cells : List (Option α)} :
    (cells.map fun x => x.elim nan f)[i]? = some nan ↔ cells[i]? = some none := by
  rw [List.getElem?_map, Option.map_eq_some_iff]
  constructor
  · rintro ⟨x, hx, heq⟩
    cases x with
    | none => exact hx
    | some a => exact absurd heq (hf a)
  · intro h
    exact ⟨none, h, rfl⟩

/-- A coercion gives NaN for the missing elements and for no others. -/
theorem missingAt_iff (h : (c.coerce arg).outcome = .ok xs) :
    xs[i]? = some nan ↔ c.MissingAt i := by
  cases c with
  | double values =>
    cases h
    exact ⟨.double, fun | .double h => h⟩
  | integer values =>
    cases h
    have hne : ∀ n : Int32, ofInt n.toInt ≠ nan := fun n => ofInt_ne_nan n.toInt
    rw [getElem?_map_elim hne]
    exact ⟨.integer, fun | .integer h => h⟩
  | logical values =>
    cases h
    rw [getElem?_map_elim ofTruth_ne_nan]
    exact ⟨.logical, fun | .logical h => h⟩
  | character cells =>
    have hnan := (characterReading arg cells).nan_iff xs h i
    constructor
    · intro hi
      have hlength : i < cells.length := by
        have hlt := (List.getElem?_eq_some_iff.mp hi).1
        rwa [length_of_coerce h] at hlt
      have hcell := List.getElem?_eq_getElem hlength
      exact .character hcell ((hnan _ hcell).mp hi)
    · intro hmissing
      cases hmissing with
      | character hcell hno => exact (hnan _ hcell).mpr hno

theorem missingAt_reached_iff (h : (c.coerce arg).outcome = .ok xs) :
    recycledAt? xs i = some nan ↔ c.MissingAt (c.reached i) := by
  rw [← missingAt_iff h]
  unfold recycledAt? reached
  rw [← length_of_coerce h]
  split
  · rfl
  · rename_i hne
    rw [if_neg fun hone => ?_]
    obtain ⟨x, rfl⟩ := List.length_eq_one_iff.mp hone
    exact hne x rfl

end Column

/-- A residual is NaN if and only if its row lacks something. The same for columns, by their missing
elements. -/
theorem devianceResiduals_nan_iff {fns : Elementary Binary64} (hln : LnFinite fns.ln)
    (hnan : fns.ln nan = nan) (hinfinity : fns.ln (infinity false) = infinity false)
    {y mu weights : List Binary64} (hmu : Fits y.length mu) (hweights : Fits y.length weights)
    (hresponses : ∀ v ∈ y, v = nan ∨ InUnit v) (hmeans : ∀ m ∈ mu, m = nan ∨ 0 < m ∧ m < 1)
    (hsizes : ∀ w ∈ weights, w = nan ∨ w.IsFinite ∧ 0 < w.value ∧ w.value ≤ 2 ^ 1022) :
    ∃ residuals, fns.devianceResiduals y mu weights = .ok residuals ∧
      residuals.length = y.length ∧
      (∀ i < y.length, residuals[i]? = some nan ↔
        y[i]? = some nan ∨ recycledAt? mu i = some nan ∨ recycledAt? weights i = some nan) ∧
      ∀ cy cmu cweights : Column, (cy.coerce "y").outcome = .ok y →
        (cmu.coerce "mu").outcome = .ok mu → (cweights.coerce "wt").outcome = .ok weights →
        (fns.devianceResidualsOf cy cmu cweights).outcome = .ok residuals ∧
          ∀ i < y.length, residuals[i]? = some nan ↔ cy.MissingAt i ∨
            cmu.MissingAt (cmu.reached i) ∨ cweights.MissingAt (cweights.reached i) := by
  obtain ⟨residuals, hok, hlength, hrows⟩ := devianceResiduals_rows fns hmu hweights
  have hiff : ∀ i < y.length, residuals[i]? = some nan ↔
      y[i]? = some nan ∨ recycledAt? mu i = some nan ∨ recycledAt? weights i = some nan := by
    intro i hi
    obtain ⟨v, m, w, hrow, hresidual⟩ := hrows i hi
    obtain ⟨hv, hm, hw⟩ := hrow.mem
    rw [hresidual, hrow.response, hrow.mean, hrow.weight]
    simp only [Option.some.injEq]
    constructor
    · intro heq
      by_contra hpresent
      obtain ⟨hv', hmw'⟩ := not_or.mp hpresent
      obtain ⟨hm', hw'⟩ := not_or.mp hmw'
      obtain ⟨hwfin, hpos, hbound⟩ := (hsizes w hw).resolve_left hw'
      exact devianceAt_ne_nan hln hinfinity ((hresponses v hv).resolve_left hv')
        (interior_iff.mpr ((hmeans m hm).resolve_left hm')) hwfin hpos hbound heq
    · intro h
      exact devianceAt_of_nan hnan (hresponses v hv) h
  refine ⟨residuals, hok, hlength, hiff, ?_⟩
  intro cy cmu cweights hy hmu' hweights'
  refine ⟨(devianceResidualsOf_refines hy hmu' hweights').trans hok, ?_⟩
  intro i hi
  rw [hiff i hi, Column.missingAt_iff hy, Column.missingAt_reached_iff hmu',
    Column.missingAt_reached_iff hweights']

/-- The second of two weights is missing, and so is the second residual, but not the first. -/
theorem devianceResiduals_nan_iff_second_weight :
    ∃ residuals, (Elementary.propagating.devianceResidualsOf (.double [0.5, 0]) (.double [0.25])
      (.logical [some true, none])).outcome = .ok residuals ∧ residuals.length = 2 ∧
      residuals[0]? ≠ some nan ∧ residuals[1]? = some nan := by
  have hmu : Fits ([0.5, 0] : List Binary64).length ([0.25] : List Binary64) := .inr rfl
  have hweights : Fits ([0.5, 0] : List Binary64).length ([1, nan] : List Binary64) := .inl rfl
  have hresponses : ∀ v ∈ ([0.5, 0] : List Binary64), v = nan ∨ InUnit v := by decide +kernel
  have hmeans : ∀ m ∈ ([0.25] : List Binary64), m = nan ∨ 0 < m ∧ m < 1 := by decide +kernel
  have hsizes : ∀ w ∈ ([1, nan] : List Binary64),
      w = nan ∨ w.IsFinite ∧ 0 < w.value ∧ w.value ≤ 2 ^ 1022 := by
    rintro w (_ | ⟨_, _ | ⟨_, ⟨⟩⟩⟩)
    · refine .inr ⟨isFinite_one, ?_⟩
      rw [value_one]
      exact ⟨zero_lt_one, one_le_pow₀ one_le_two⟩
    · exact .inl rfl
  obtain ⟨residuals, -, hlength, hiff, hcolumns⟩ := devianceResiduals_nan_iff lnFinite_propagating
    (by decide +kernel) (by decide +kernel) hmu hweights hresponses hmeans hsizes
  obtain ⟨hok, -⟩ := hcolumns (.double [0.5, 0]) (.double [0.25]) (.logical [some true, none])
    rfl rfl rfl
  refine ⟨residuals, hok, hlength, ?_, ?_⟩
  · rw [Ne, hiff 0 (by decide)]
    decide +kernel
  · rw [hiff 1 (by decide)]
    decide +kernel

end BinomialLogit
