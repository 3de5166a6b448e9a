import BinomialLogit.Proofs.Binary64.Rounds
import BinomialLogit.Proofs.Binary64.Whole
import BinomialLogit.Proofs.Recycling.Faults

/-! The two counts of an observation. A part of the trials, rounded to a double and then to a count,
does not exceed the trials rounded to a count, whether they are fractions, beyond the counts or
infinite. So the criterion needs no answer for more successes than trials, and the failures are a
difference of counts. -/

namespace BinomialLogit
set_option autoImplicit false
universe u v
open Binary64

namespace Observation
variable {o : Observation}

theorem trials_of_infinite (h : o.size = infinity false) : o.trials = maxCount := by
  unfold trials
  rw [h]
  rfl

theorem successes_le_trials (hresponse : InUnit o.response) (hsize : 0 ≤ o.size) :
    o.successes ≤ o.trials := by
  obtain ⟨hv0, hv1⟩ := hresponse
  have hv : o.response.IsFinite := isFinite_of_le_of_le isFinite_numeral_zero isFinite_one hv0 hv1
  cases hs : o.size with
  | nan =>
    rw [hs] at hsize
    exact absurd rfl (ne_nan_of_le_right hsize)
  | infinity s =>
    cases s with
    | false =>
      rw [trials_of_infinite hs]
      exact toCount_le _
    | true =>
      rw [hs] at hsize
      exact absurd hsize (by decide +kernel)
  | finite s u hu =>
    have hfin : o.size.IsFinite := ⟨s, u, hu, hs⟩
    have hround := rounds_mul hfin hv
    refine toCount_mono (Binary64.round_mono (hround.le hfin ?_))
    exact mul_le_of_le_one_right (hfin.nonneg_iff.mp hsize) (hv.le_one_iff.mp hv1)

example : (⟨0.5, 2.5, 0.5, 1⟩ : Observation).successes = 1 := by decide +kernel

end Observation

def difference? (m n : ℕ) : Option ℕ := if n ≤ m then some (m - n) else none

section Mass
variable {fns : Elementary Binary64} {p : Binary64} {trials successes : ℕ}

/-- The logarithm of the mass, by successes and failures. There is none if they are not all of the
trials. -/
def Elementary.countedMass? (fns : Elementary Binary64) (p : Binary64) (trials successes : ℕ) :
    Option Binary64 := do
  let failures ← difference? trials successes
  if p.Agrees 0 then
    return if successes = 0 then 0 else impossible
  else if certain ≤ p then
    return if failures = 0 then 0 else impossible
  else
    let choices := fns.lnFactorial trials - fns.lnFactorial successes - fns.lnFactorial failures
    return choices + .ofNat successes * fns.ln p + .ofNat failures * fns.ln (1 - p)

theorem countedMass?_eq_some (h : successes ≤ trials) :
    fns.countedMass? p trials successes = some (fns.lnMass p trials successes) := by
  have hall : trials - successes = 0 ↔ successes = trials := by omega
  unfold Elementary.countedMass? difference? Elementary.lnMass
  rw [if_pos h, if_neg (Nat.not_lt.mpr h)]
  simp only [Option.bind_eq_bind, Option.bind_some, hall]
  split
  · rfl
  · split
    · rfl
    · rfl

end Mass

section Terms
variable {fns : Elementary Binary64}

def Elementary.countedTerm? (fns : Elementary Binary64) (row : Observation × ℕ) :
    ExceptT (Fault Binary64) Option Binary64 :=
  if InUnit row.1.mean then do
    let mass ← ExceptT.lift (fns.countedMass? row.1.mean row.1.trials row.1.successes)
    return row.1.weight / row.1.size * mass
  else throw (.meanOutside row.2 row.1.mean)

theorem countedTerm?_eq {row : Observation × ℕ} (h : row.1.successes ≤ row.1.trials) :
    fns.countedTerm? row = ExceptT.mk (some (termOf? fns row)) := by
  change (if InUnit row.1.mean then _ else _) = ExceptT.mk (some (if InUnit row.1.mean then _ else _))
  rw [countedMass?_eq_some h]
  split
  · rfl
  · rfl

theorem mapM_eq_mk_some {α : Type u} {β ε : Type v} {f : α → ExceptT ε Option β}
    {g : α → Except ε β} {xs : List α} (h : ∀ x ∈ xs, f x = ExceptT.mk (some (g x))) :
    xs.mapM f = ExceptT.mk (some (xs.mapM g)) := by
  induction xs with
  | nil => rfl
  | cons x xs ih =>
    have hrest := ih fun x' hx' => h x' (List.mem_cons_of_mem x hx')
    rw [List.mapM_cons, List.mapM_cons, h x List.mem_cons_self, hrest]
    cases g x with
    | error e => rfl
    | ok b =>
      cases xs.mapM g with
      | error e => rfl
      | ok bs => rfl

end Terms

section Criterion
variable {y trials mu weights : List Binary64}

/-- The criterion by counts, with no answer where more successes than trials come up. -/
def Elementary.countedAic (fns : Elementary Binary64) (y trials mu weights : List Binary64) :
    Option (Except (Fault Binary64) Binary64) :=
  afterChecks (aicChecks y trials mu weights) <| ExceptT.run do
    let terms ← (contributing (rowsOf y trials mu weights)).mapM fns.countedTerm?
    return -2 * total terms

theorem successes_le_trials_of_contributing (hunit : ∀ v ∈ y, InUnit v) {row : Observation × ℕ}
    (hrow : row ∈ contributing (rowsOf y trials mu weights)) :
    row.1.successes ≤ row.1.trials := by
  obtain ⟨hmem, hcontributes⟩ := List.mem_filter.mp hrow
  obtain ⟨i, hi⟩ := List.mem_iff_getElem?.mp (List.fst_mem_of_mem_zipIdx hmem)
  obtain ⟨hv, -⟩ := getElem?_rowsOf hi
  exact Observation.successes_le_trials (hunit _ (List.mem_of_getElem? hv))
    (Binary64.le_of_lt (of_decide_eq_true hcontributes))

/-- Observations with trials never have more successes than trials, and on every input the criterion
is what it is by counts. -/
theorem aic_counts (fns : Elementary Binary64) (y trials mu weights : List Binary64) :
    (∀ o : Observation, InUnit o.response → o.Contributes → o.successes ≤ o.trials) ∧
      fns.countedAic y trials mu weights = some (fns.aic y trials mu weights) := by
  constructor
  · intro o hresponse hcontributes
    exact Observation.successes_le_trials hresponse (Binary64.le_of_lt hcontributes)
  · rw [fns.aic_eq]
    unfold Elementary.countedAic
    cases hchecks : aicChecks y trials mu weights with
    | error e => rfl
    | ok _ =>
      obtain ⟨-, hunit⟩ := aicChecks_eq_ok_iff.mp hchecks
      have hterms : (contributing (rowsOf y trials mu weights)).mapM fns.countedTerm? =
          ExceptT.mk (some ((contributing (rowsOf y trials mu weights)).mapM (termOf? fns))) :=
        mapM_eq_mk_some fun row hrow =>
          countedTerm?_eq (successes_le_trials_of_contributing hunit hrow)
      unfold afterChecks
      dsimp only
      rw [hterms, logLikelihood_eq]
      cases (contributing (rowsOf y trials mu weights)).mapM (termOf? fns) with
      | error e => rfl
      | ok terms => rfl

end Criterion

end BinomialLogit
