import BinomialLogit.Proofs.Binary64.Special
import BinomialLogit.Proofs.Mean.Usable
import BinomialLogit.Proofs.StartingMeans

/-! Predictors in the order of their means. Both the numerator and the rounded denominator of the
odds move with the mean; rounding keeps the order of each, and the odds of a certain success are
infinite, above all others. -/

namespace BinomialLogit
set_option autoImplicit false
open Binary64

/-- Predictors that stand in the order of their means. Those of zero and one are the infinities. -/
structure InOrder (mu etas : List Binary64) : Prop where
  length : etas.length = mu.length
  not_nan : nan ∉ etas
  mono : ∀ (i j : ℕ) m m' x x', mu[i]? = some m → mu[j]? = some m' → etas[i]? = some x →
    etas[j]? = some x' → m ≤ m' → x ≤ x'
  lowest : ∀ (i : ℕ) m x, mu[i]? = some m → etas[i]? = some x → m ≤ 0 → x = infinity true
  highest : ∀ (i : ℕ) m x, mu[i]? = some m → etas[i]? = some x → 1 ≤ m → x = infinity false

section Odds
variable {m m' : Binary64}

theorem InUnit.shortOfOne (h : InUnit m) (hlt : m.value < 1) : ShortOfOne m := by
  obtain ⟨hfin, hnonneg, -⟩ := inUnit_iff.mp h
  exact ⟨hfin, hnonneg, hlt⟩

/-- A mean is one, with infinite odds, or short of it. -/
theorem InUnit.eq_one_or_shortOfOne (h : InUnit m) : m = 1 ∨ ShortOfOne m := by
  obtain ⟨hfin, -, hle⟩ := inUnit_iff.mp h
  rcases hle.lt_or_eq with hlt | heq
  · exact .inr (h.shortOfOne hlt)
  · refine .inl (eq_of_value_eq hfin isFinite_one (heq.trans value_one.symm) ?_)
    rw [heq]
    norm_num

theorem odds_one : (1 : Binary64) / (1 - 1) = infinity false := by decide +kernel

theorem ShortOfOne.odds_mono (h : ShortOfOne m) (h' : ShortOfOne m') (hle : m ≤ m') :
    m / (1 - m) ≤ m' / (1 - m') := by
  have hvalue := (le_iff_value_le h.isFinite h'.isFinite).mp hle
  have hcomplement : (1 - m').value ≤ (1 - m).value :=
    (rounds_one_sub h'.isFinite).value_le_value h'.complement.1 (rounds_one_sub h.isFinite)
      h.complement.1 (by linarith)
  exact h.rounds_odds.mono h'.rounds_odds
    (div_le_div₀ h'.nonneg hvalue h'.complement_pos hcomplement)

theorem odds_mono (h : InUnit m) (h' : InUnit m') (hle : m ≤ m') :
    m / (1 - m) ≤ m' / (1 - m') := by
  rcases h'.eq_one_or_shortOfOne with rfl | hshort'
  · rw [odds_one]
    rcases h.eq_one_or_shortOfOne with rfl | hshort
    · rw [odds_one]
      exact Binary64.le_refl nofun
    · exact Binary64.le_of_lt hshort.odds_between.1.lt_infinity
  · have hvalue := (le_iff_value_le (inUnit_iff.mp h).1 hshort'.isFinite).mp hle
    exact (h.shortOfOne (hvalue.trans_lt hshort'.lt_one)).odds_mono hshort' hle

theorem odds_nonneg (h : InUnit m) : 0 ≤ m / (1 - m) := by
  rcases h.eq_one_or_shortOfOne with rfl | hshort
  · rw [odds_one]
    decide +kernel
  · obtain ⟨hfin, hge, -⟩ := hshort.odds_between
    exact hfin.nonneg_iff.mpr (hshort.nonneg.trans hge)

theorem exists_odds_zero (h : InUnit m) (h0 : m ≤ 0) : ∃ s, m / (1 - m) = zero s := by
  obtain ⟨hfin, hnonneg, -⟩ := inUnit_iff.mp h
  obtain ⟨s, rfl⟩ := eq_zero_of_value hfin ((hfin.nonpos_iff.mp h0).antisymm hnonneg)
  refine ⟨s, ?_⟩
  cases s <;> decide +kernel

theorem odds_of_one_le (h : InUnit m) (h1 : 1 ≤ m) : m / (1 - m) = infinity false := by
  rcases h.eq_one_or_shortOfOne with rfl | hshort
  · exact odds_one
  · have hle := (le_iff_value_le isFinite_one hshort.isFinite).mp h1
    rw [value_one] at hle
    exact absurd hshort.lt_one (not_lt.mpr hle)

end Odds

section Link
variable {L : Logit Binary64} (hln : LnOrdered L.ln) {mu : List Binary64}
include hln

theorem inOrder_map (hunit : ∀ m ∈ mu, InUnit m) :
    InOrder mu (mu.map fun m => L.ln (m / (1 - m))) := by
  have hat : ∀ (i : ℕ) m x, mu[i]? = some m →
      (mu.map fun m => L.ln (m / (1 - m)))[i]? = some x →
        InUnit m ∧ L.ln (m / (1 - m)) = x := by
    intro i m x hm hx
    rw [List.getElem?_map, hm] at hx
    exact ⟨hunit m (List.mem_of_getElem? hm), Option.some.inj hx⟩
  constructor
  case length => exact List.length_map _
  case not_nan =>
    intro hmem
    obtain ⟨m, hm, hnan⟩ := List.mem_map.mp hmem
    have hodds := odds_nonneg (hunit m hm)
    have hself := hln.mono _ _ hodds (Binary64.le_refl (ne_nan_of_le_right hodds))
    exact ne_nan_of_le_left hself hnan
  case mono =>
    intro i j m m' x x' hm hm' hx hx' hle
    obtain ⟨hinside, rfl⟩ := hat i m x hm hx
    obtain ⟨hinside', rfl⟩ := hat j m' x' hm' hx'
    exact hln.mono _ _ (odds_nonneg hinside) (odds_mono hinside hinside' hle)
  case lowest =>
    intro i m x hm hx hzero
    obtain ⟨hinside, rfl⟩ := hat i m x hm hx
    obtain ⟨s, hodds⟩ := exists_odds_zero hinside hzero
    rw [hodds, hln.at_zero]
  case highest =>
    intro i m x hm hx hone
    obtain ⟨hinside, rfl⟩ := hat i m x hm hx
    rw [odds_of_one_le hinside hone, hln.at_infinity]

/-- The link accepts means from zero to one, both ends included, and its predictors stand in the
order of the means. -/
theorem link_inOrder (hne : mu ≠ []) (hunit : ∀ m ∈ mu, InUnit m) :
    ∃ etas, L.link mu = .ok etas ∧ InOrder mu etas := by
  have hinside : ∀ m ∈ mu, ¬(m < 0 ∨ 1 < m) := fun m hm => not_beyond_of_inUnit (hunit m hm)
  exact ⟨_, L.link_eq_ok hne hinside, inOrder_map hln hunit⟩

end Link

def Elementary.limited : Elementary Binary64 :=
  { Elementary.tabulated with
    ln := fun x => if x ≤ 0 then infinity true else if x ≤ 1 then 0 else infinity false }

theorem lnOrdered_limited : LnOrdered Elementary.limited.ln := by
  constructor
  case at_zero =>
    intro s
    cases s <;> decide +kernel
  case at_infinity => decide +kernel
  case mono =>
    intro x y _ hxy
    change ite _ _ _ ≤ ite _ _ _
    by_cases hy0 : y ≤ 0
    · rw [if_pos hy0, if_pos (Binary64.le_trans hxy hy0)]
      exact Binary64.le_refl nofun
    · rw [if_neg hy0]
      by_cases hy1 : y ≤ 1
      · rw [if_pos hy1, if_pos (Binary64.le_trans hxy hy1)]
        split <;> decide +kernel
      · rw [if_neg hy1]
        split
        · decide +kernel
        · split <;> decide +kernel

theorem link_inOrder_ends : ∃ etas,
    Elementary.limited.standardLogit.link [0.5, 1, -0, 0] = .ok etas ∧
      InOrder [0.5, 1, -0, 0] etas :=
  have hunit : ∀ m ∈ [0.5, 1, -0, (0 : Binary64)], InUnit m := by decide +kernel
  link_inOrder (L := Elementary.limited.standardLogit) lnOrdered_limited (by decide) hunit

/-- No means at all are refused, though none of them lies outside the unit interval. -/
theorem link_refuses_no_means : LnOrdered Elementary.limited.ln ∧
    (∀ m ∈ ([] : List Binary64), InUnit m) ∧
      Elementary.limited.standardLogit.link [] = .error (.empty "mu") :=
  ⟨lnOrdered_limited, by decide, rfl⟩

end BinomialLogit
