import BinomialLogit.Proofs.Binary64.Rounds
import BinomialLogit.Total

/-! Sums of however many terms. Once a sum of moderate terms has grown large enough, adding another
does not change it any more, so it stays finite; a negative infinity among the terms stays in the
sum. -/

namespace BinomialLogit
set_option autoImplicit false
open Binary64

def Moderate (t : Binary64) : Prop := t.IsFinite ∧ |t.value| ≤ 2 ^ 56

/-- The bound that sums of moderate numbers keep. -/
def Settled (sum : Binary64) : Prop := sum.IsFinite ∧ |sum.value| ≤ 2 ^ 120

theorem settled_add {sum t : Binary64} (hsum : Settled sum) (ht : Moderate t) :
    Settled (sum + t) := by
  obtain ⟨hsfin, hs⟩ := hsum
  obtain ⟨htfin, ht⟩ := ht
  have hround := rounds_add hsfin htfin
  have hbound : IsValue (2 ^ 120) := isValue_two_pow (by norm_num)
  have hfin : (sum + t).IsFinite := by
    refine (hround.abs_value_le (isValue_two_pow (n := 121) (by norm_num)) ?_).1
    refine (abs_add_le _ _).trans ?_
    norm_num at hs ht ⊢
    linarith
  have hs' := abs_le.mp hs
  have ht' := abs_le.mp ht
  refine ⟨hfin, abs_le.mpr ⟨?_, ?_⟩⟩
  · have hneg := hround.neg.value_le_of_close (isFinite_neg hfin) hbound (by positivity) (by
      norm_num at hs' ht' ⊢
      linarith)
    rw [value_neg] at hneg
    linarith
  · apply hround.value_le_of_close hfin hbound (by positivity)
    norm_num at hs' ht' ⊢
    linarith

theorem add_negative_infinity {sum : Binary64} (h : sum.IsFinite ∨ sum = infinity true) :
    sum + infinity true = infinity true := by
  rcases h with ⟨s, u, hu, rfl⟩ | rfl
  · rfl
  · rfl

theorem negative_infinity_add {t : Binary64} (h : t.IsFinite ∨ t = infinity true) :
    infinity true + t = infinity true := by
  rcases h with ⟨s, u, hu, rfl⟩ | rfl
  · rfl
  · rfl

theorem foldl_add_negative_infinity {terms : List Binary64}
    (h : ∀ t ∈ terms, Moderate t ∨ t = infinity true) :
    terms.foldl (· + ·) (infinity true) = infinity true := by
  induction terms with
  | nil => rfl
  | cons t terms ih =>
    rw [List.foldl_cons, negative_infinity_add ((h t List.mem_cons_self).imp_left And.left)]
    exact ih fun t ht => h t (List.mem_cons_of_mem _ ht)

/-- By induction along the terms; the sum so far is settled. -/
theorem foldl_add_cases {terms : List Binary64} {sum : Binary64} (hsum : Settled sum)
    (h : ∀ t ∈ terms, Moderate t ∨ t = infinity true) :
    (infinity true ∉ terms ∧ Settled (terms.foldl (· + ·) sum)) ∨
      (infinity true ∈ terms ∧ terms.foldl (· + ·) sum = infinity true) := by
  induction terms generalizing sum with
  | nil => exact .inl ⟨List.not_mem_nil, hsum⟩
  | cons t terms ih =>
    have hrest : ∀ t ∈ terms, Moderate t ∨ t = infinity true :=
      fun t ht => h t (List.mem_cons_of_mem _ ht)
    rw [List.foldl_cons]
    rcases h t List.mem_cons_self with ht | rfl
    · have hne : infinity true ≠ t := by
        intro heq
        exact not_isFinite_infinity _ (heq ▸ ht.1)
      rcases ih (settled_add hsum ht) hrest with ⟨hmem, hsettled⟩ | ⟨hmem, hinf⟩
      · exact .inl ⟨List.not_mem_cons_of_ne_of_not_mem hne hmem, hsettled⟩
      · exact .inr ⟨List.mem_cons_of_mem _ hmem, hinf⟩
    · rw [add_negative_infinity (.inl hsum.1)]
      exact .inr ⟨List.mem_cons_self, foldl_add_negative_infinity hrest⟩

theorem total_cases {terms : List Binary64} (h : ∀ t ∈ terms, Moderate t ∨ t = infinity true) :
    (infinity true ∉ terms ∧ Settled (total terms)) ∨
      (infinity true ∈ terms ∧ total terms = infinity true) :=
  foldl_add_cases ⟨isFinite_numeral_zero, by rw [value_numeral_zero, abs_zero]; positivity⟩ h

end BinomialLogit
