import BinomialLogit.Binary64.Elementary
import BinomialLogit.Decimal.Basic
import BinomialLogit.Proofs.Binary64.Value

/-! What statements assume of the exponential and the logarithm: bounds that any usable
approximation of them keeps. -/

namespace BinomialLogit.Binary64
set_option autoImplicit false

/-- Between the standard thresholds the exponential lies between 2^-44 and 2^44. -/
def ExpBounded (exp : Binary64 → Binary64) : Prop :=
  ∀ x : Binary64, -30 ≤ x → x ≤ 30 →
    (exp x).IsFinite ∧ 1 / 2 ^ 44 ≤ (exp x).value ∧ (exp x).value ≤ 2 ^ 44

/-- The logarithm of a positive number is a number of magnitude at most 746. -/
def LnBounded (ln : Binary64 → Binary64) : Prop :=
  ∀ x : Binary64, x.IsFinite → 0 < x → (ln x).IsFinite ∧ |(ln x).value| ≤ 746

theorem LnBounded.of_value_pos {ln : Binary64 → Binary64} (h : LnBounded ln) {x : Binary64}
    (hx : x.IsFinite) (hpos : 0 < x.value) : (ln x).IsFinite ∧ |(ln x).value| ≤ 746 :=
  h x hx (hx.pos_iff.mpr hpos)

def LnFinite (ln : Binary64 → Binary64) : Prop :=
  ∀ x : Binary64, x.IsFinite → 0 < x → (ln x).IsFinite

/-- The logarithm is zero at one, negative below and positive above. -/
structure LnSigned (ln : Binary64 → Binary64) : Prop where
  one : (ln 1).Agrees 0
  below : ∀ x : Binary64, 0 < x → x < 1 → ln x < 0
  above : ∀ x : Binary64, 1 < x → 0 < ln x

/-- The logarithm is nondecreasing from zero on, from the negative infinity to the positive one. -/
structure LnOrdered (ln : Binary64 → Binary64) : Prop where
  mono : ∀ x y : Binary64, 0 ≤ x → x ≤ y → ln x ≤ ln y
  at_zero : ∀ s, ln (zero s) = infinity true
  at_infinity : ln (infinity false) = infinity false

theorem LnBounded.finite {ln : Binary64 → Binary64} (h : LnBounded ln) : LnFinite ln :=
  fun x hx hpos => (h x hx hpos).1

end BinomialLogit.Binary64

namespace BinomialLogit
open Binary64

/-- Right at zero for the exponential, and for the logarithm at one half, one, two and 2^52. -/
def Elementary.tabulated : Elementary Binary64 where
  exp _ := 1
  ln x :=
    if x ≤ 0.5 then -0.6931471805599453
    else if x ≤ 1 then 0
    else if x ≤ 2 then 0.6931471805599453
    else 36.04365338911715

theorem expBounded_tabulated : ExpBounded Elementary.tabulated.exp := by
  intro x _ _
  change (1 : Binary64).IsFinite ∧ 1 / 2 ^ 44 ≤ (1 : Binary64).value ∧ (1 : Binary64).value ≤ 2 ^ 44
  rw [value_one]
  exact ⟨isFinite_one, by norm_num, by norm_num⟩

theorem lnBounded_tabulated : LnBounded Elementary.tabulated.ln := by
  have hbound : ∀ {b : Binary64}, -ofNat 64 ≤ b ∧ b ≤ ofNat 64 → b.IsFinite ∧ |b.value| ≤ 746 := by
    intro b hb
    obtain ⟨hfin, hle⟩ := abs_value_le_ofNat (by norm_num) hb
    exact ⟨hfin, hle.trans (by norm_num)⟩
  intro x _ _
  change IsFinite (ite _ _ _) ∧ |value (ite _ _ _)| ≤ 746
  split
  · exact hbound (by decide +kernel)
  · split
    · exact hbound (by decide +kernel)
    · split
      · exact hbound (by decide +kernel)
      · exact hbound (by decide +kernel)

def Elementary.extended : Elementary Binary64 where
  exp := tabulated.exp
  ln x := if x = infinity false then x else tabulated.ln x

theorem lnFinite_extended : LnFinite Elementary.extended.ln := by
  intro x hx hpos
  have hne : x ≠ infinity false := by
    rintro rfl
    exact not_isFinite_infinity false hx
  have hln : Elementary.extended.ln x = Elementary.tabulated.ln x := if_neg hne
  rw [hln]
  exact lnBounded_tabulated.finite x hx hpos

theorem extended_ln_infinity : Elementary.extended.ln (infinity false) = infinity false := by
  decide +kernel

def Elementary.propagating : Elementary Binary64 where
  exp := tabulated.exp
  ln x := if x = nan then x else extended.ln x

theorem lnFinite_propagating : LnFinite Elementary.propagating.ln := by
  intro x hx hpos
  have hln : Elementary.propagating.ln x = Elementary.extended.ln x := if_neg hx.ne_nan
  rw [hln]
  exact lnFinite_extended x hx hpos

/-- Right in sign everywhere, and in value at one half, one, two and infinity. -/
def Elementary.rightInSign : Elementary Binary64 where
  exp := tabulated.exp
  ln x :=
    if x = infinity false then x
    else if x < 1 then -0.6931471805599453
    else if 1 < x then 0.6931471805599453
    else 0

theorem lnSigned_rightInSign : LnSigned Elementary.rightInSign.ln := by
  constructor
  case one => decide +kernel
  case below =>
    intro x _ hx
    have hne : x ≠ infinity false := by
      rintro rfl
      exact absurd hx (by decide +kernel)
    change ite _ _ _ < 0
    rw [if_neg hne, if_pos hx]
    decide +kernel
  case above =>
    intro x hx
    change 0 < ite _ _ _
    by_cases heq : x = infinity false
    · rw [if_pos heq, heq]
      decide +kernel
    · have hge : ¬x < 1 := fun hlt => Binary64.not_le_of_lt hlt (Binary64.le_of_lt hx)
      rw [if_neg heq, if_neg hge, if_pos hx]
      decide +kernel

end BinomialLogit
