import BinomialLogit.Proofs.Elementary
import BinomialLogit.Proofs.Rows

/-! What the criterion does not look at. An observation without trials is passed over before its
mean is checked, so nothing that stands at its position counts, and it may as well be left out; and
numbers of trials that nowhere exceed one are not read at all. -/

namespace BinomialLogit
set_option autoImplicit false

/-- Without trials: none, a negative number of them, or NaN. -/
def Idle (size : Binary64) : Prop := size ≤ 0 ∨ size = .nan

instance (size : Binary64) : Decidable (Idle size) := inferInstanceAs (Decidable (_ ∨ _))

theorem not_idle_iff {size : Binary64} : ¬Idle size ↔ 0 < size := by
  constructor
  · intro h
    obtain ⟨hpos, hnan⟩ := not_or.mp h
    exact Binary64.lt_of_not_le hnan Binary64.isFinite_numeral_zero.ne_nan hpos
  · intro h hidle
    rcases hidle with hnonpos | rfl
    · exact Binary64.not_le_of_lt h hnonpos
    · exact Binary64.ne_nan_of_le_right (Binary64.le_of_lt h) rfl

section Rows
variable {rows rows' : List Observation}

/-- Observations that the criterion cannot tell apart at their position. -/
def Interchangeable (o o' : Observation) : Prop := o.Contributes ∨ o'.Contributes → o = o'

theorem contributing_congr (h : List.Forall₂ Interchangeable rows rows') :
    contributing rows = contributing rows' := by
  unfold contributing
  generalize 0 = k
  induction h generalizing k with
  | nil => rfl
  | @cons o o' rows rows' hrow _ ih =>
    rw [List.zipIdx_cons, List.zipIdx_cons]
    by_cases hsome : o.Contributes ∨ o'.Contributes
    · obtain rfl := hrow hsome
      rw [List.filter_cons, List.filter_cons, ih]
    · obtain ⟨ho, ho'⟩ := not_or.mp hsome
      rw [List.filter_cons_of_neg (by simpa using ho), List.filter_cons_of_neg (by simpa using ho')]
      exact ih (k + 1)

theorem logLikelihood_congr (fns : Elementary Binary64)
    (h : List.Forall₂ Interchangeable rows rows') :
    logLikelihood fns rows = logLikelihood fns rows' := by
  rw [logLikelihood_eq, logLikelihood_eq, contributing_congr h]

/-- Leaving out the observations without trials moves the others, which does not matter as long as
none of them is at fault. -/
theorem logLikelihood_filter (fns : Elementary Binary64)
    (h : ∀ o ∈ rows, o.Contributes → InUnit o.mean) :
    logLikelihood fns (rows.filter fun o => o.Contributes) = logLikelihood fns rows := by
  have hkept : ∀ o ∈ rows.filter (fun o => o.Contributes), o.Contributes → InUnit o.mean :=
    fun o ho => h o (List.mem_of_mem_filter ho)
  rw [logLikelihood_eq_ok fns h, logLikelihood_eq_ok fns hkept, List.filter_filter]
  simp only [Bool.and_self]

end Rows

section Vectors
variable {y counts mu weights xs : List Binary64} {rows : List Observation}

def keep (counts xs : List Binary64) : List Binary64 :=
  ((xs.zip counts).filter fun row => ¬Idle row.2).map Prod.fst

theorem mem_of_mem_keep {x : Binary64} (h : x ∈ keep counts xs) : x ∈ xs := by
  obtain ⟨row, hrow, rfl⟩ := List.mem_map.mp h
  exact (List.of_mem_zip (List.mem_of_mem_filter hrow)).1

theorem mem_keep_self {x : Binary64} (h : x ∈ counts) (hidle : ¬Idle x) :
    x ∈ keep counts counts := by
  obtain ⟨i, hi⟩ := List.mem_iff_getElem?.mp h
  have hrow : (x, x) ∈ counts.zip counts :=
    List.mem_of_getElem? (List.getElem?_zip_eq_some.mpr ⟨hi, hi⟩)
  exact List.mem_map.mpr ⟨(x, x), List.mem_filter.mpr ⟨hrow, decide_eq_true hidle⟩, rfl⟩

theorem length_keep (h : xs.length = counts.length) :
    (keep counts xs).length = (counts.filter fun s => ¬Idle s).length := by
  have hcounts : (xs.zip counts).map Prod.snd = counts := List.map_snd_zip h.ge
  conv_rhs => rw [← hcounts, List.filter_map, List.length_map]
  exact List.length_map _

theorem keep_map (f : Observation → Binary64) : keep (rows.map Observation.size) (rows.map f) =
    (rows.filter fun o => o.Contributes).map f := by
  have hidle : ((fun row : Binary64 × Binary64 => decide ¬Idle row.2) ∘ fun o => (f o, o.size)) =
      fun o => decide o.Contributes := by
    funext o
    exact decide_eq_decide.mpr not_idle_iff
  unfold keep
  rw [List.zip_map', List.filter_map, List.map_map, hidle]
  rfl

structure Columns (rows : List Observation) (y counts mu weights : List Binary64) : Prop where
  responses : rows.map Observation.response = y
  counts : rows.map Observation.size = counts
  means : rows.map Observation.mean = mu
  weights : rows.map Observation.weight = weights

theorem exists_columns (hcounts : counts.length = y.length) (hmu : mu.length = y.length)
    (hweights : weights.length = y.length) : ∃ rows, Columns rows y counts mu weights := by
  induction y generalizing counts mu weights with
  | nil =>
    obtain rfl := List.length_eq_zero_iff.mp hcounts
    obtain rfl := List.length_eq_zero_iff.mp hmu
    obtain rfl := List.length_eq_zero_iff.mp hweights
    exact ⟨[], rfl, rfl, rfl, rfl⟩
  | cons v y ih =>
    obtain ⟨s, counts, rfl⟩ := List.exists_cons_of_length_eq_add_one hcounts
    obtain ⟨m, mu, rfl⟩ := List.exists_cons_of_length_eq_add_one hmu
    obtain ⟨w, weights, rfl⟩ := List.exists_cons_of_length_eq_add_one hweights
    obtain ⟨rows, hy, hs, hm, hw⟩ :=
      ih (Nat.succ.inj hcounts) (Nat.succ.inj hmu) (Nat.succ.inj hweights)
    exact ⟨⟨v, s, m, w⟩ :: rows, congrArg (v :: ·) hy, congrArg (s :: ·) hs,
      congrArg (m :: ·) hm, congrArg (w :: ·) hw⟩

namespace Columns
variable (h : Columns rows y counts mu weights)
include h

theorem observations_eq : observations y counts mu weights = rows := by
  obtain ⟨rfl, rfl, rfl, rfl⟩ := h
  unfold observations
  rw [List.zip_map', List.zip_map', List.zip_map', List.map_map]
  exact List.map_id _

theorem getElem? {i : ℕ} {o : Observation} (hi : rows[i]? = some o) :
    y[i]? = some o.response ∧ counts[i]? = some o.size ∧ mu[i]? = some o.mean ∧
      weights[i]? = some o.weight := by
  obtain ⟨rfl, rfl, rfl, rfl⟩ := h
  simp only [List.getElem?_map, hi, Option.map_some, and_self]

theorem kept : Columns (rows.filter fun o => o.Contributes) (keep counts y) (keep counts counts)
    (keep counts mu) (keep counts weights) := by
  obtain ⟨rfl, rfl, rfl, rfl⟩ := h
  exact ⟨(keep_map _).symm, (keep_map _).symm, (keep_map _).symm, (keep_map _).symm⟩

end Columns

end Vectors

section Criterion
variable {y trials mu weights : List Binary64}

structure Complete (y trials mu weights : List Binary64) : Prop where
  trials_length : trials.length = y.length
  mu_length : mu.length = y.length
  weights_length : weights.length = y.length
  inUnit : ∀ v ∈ y, InUnit v

namespace Complete
variable (h : Complete y trials mu weights)
include h

theorem sizes_length : (sizes trials weights).length = y.length := by
  unfold sizes
  split
  · exact h.trials_length
  · exact h.weights_length

theorem checks : aicChecks y trials mu weights = .ok ⟨⟩ :=
  aicChecks_eq_ok_iff.mpr
    ⟨⟨.inl h.trials_length, .inl h.mu_length, .inl h.weights_length⟩, h.inUnit⟩

theorem columns : Columns (rowsOf y trials mu weights) y (sizes trials weights) mu weights := by
  obtain ⟨rows, hcolumns⟩ := exists_columns h.sizes_length h.mu_length h.weights_length
  have hrows : rowsOf y trials mu weights = rows := by
    unfold rowsOf
    rw [expand_eq_self h.sizes_length, expand_eq_self h.mu_length,
      expand_eq_self h.weights_length, hcolumns.observations_eq]
  rwa [hrows]

theorem aic_eq (fns : Elementary Binary64) : fns.aic y trials mu weights =
    (logLikelihood fns (rowsOf y trials mu weights)).map fun likelihood => -2 * likelihood := by
  rw [fns.aic_eq, h.checks]
  rfl

end Complete

/-- Other responses and means at the positions without trials, and other weights where the numbers
of trials are given; everything else is the same. -/
structure ChangedIdle (y trials mu weights y' mu' weights' : List Binary64) : Prop where
  complete : Complete y' trials mu' weights'
  weights_kept : ¬GivesTrials trials → weights' = weights
  kept : ∀ (i : ℕ) (size : Binary64), (sizes trials weights)[i]? = some size → ¬Idle size →
    y'[i]? = y[i]? ∧ mu'[i]? = mu[i]? ∧ weights'[i]? = weights[i]?

namespace ChangedIdle
variable {y' mu' weights' : List Binary64} (h : ChangedIdle y trials mu weights y' mu' weights')
include h

theorem sizes_eq : sizes trials weights' = sizes trials weights := by
  unfold sizes
  split
  · rfl
  · rename_i hgives
    exact h.weights_kept hgives

theorem columns : Columns (rowsOf y' trials mu' weights') y' (sizes trials weights) mu' weights' :=
  h.sizes_eq ▸ h.complete.columns

variable (hfull : Complete y trials mu weights)
include hfull

theorem interchangeable_at {i : ℕ} {o o' : Observation}
    (hi : (rowsOf y trials mu weights)[i]? = some o)
    (hi' : (rowsOf y' trials mu' weights')[i]? = some o') : Interchangeable o o' := by
  obtain ⟨hv, hs, hm, hw⟩ := hfull.columns.getElem? hi
  obtain ⟨hv', hs', hm', hw'⟩ := h.columns.getElem? hi'
  intro hsome
  have hsize : o.size = o'.size := Option.some.inj (hs.symm.trans hs')
  have hpos : 0 < o.size := by
    rcases hsome with hpos | hpos
    · exact hpos
    · exact hsize.symm ▸ hpos
  obtain ⟨hy, hmu, hweights⟩ := h.kept i o.size hs (not_idle_iff.mpr hpos)
  have hresponse : o.response = o'.response := Option.some.inj (hv.symm.trans (hy.symm.trans hv'))
  have hmean : o.mean = o'.mean := Option.some.inj (hm.symm.trans (hmu.symm.trans hm'))
  have hweight : o.weight = o'.weight := Option.some.inj (hw.symm.trans (hweights.symm.trans hw'))
  cases o
  cases o'
  rw [Observation.mk.injEq]
  exact ⟨hresponse, hsize, hmean, hweight⟩

theorem interchangeable :
    List.Forall₂ Interchangeable (rowsOf y trials mu weights) (rowsOf y' trials mu' weights') := by
  have hlength : (rowsOf y trials mu weights).length = (rowsOf y' trials mu' weights').length := by
    rw [← List.length_map Observation.size, hfull.columns.counts, ← h.columns.counts,
      List.length_map]
  apply List.forall₂_iff_get.mpr
  refine ⟨hlength, ?_⟩
  intro i hi hi'
  exact h.interchangeable_at hfull (List.getElem?_eq_getElem hi) (List.getElem?_eq_getElem hi')

end ChangedIdle

/-- The positions that are left decide as all did whether the trials are given. -/
theorem sizes_keep :
    sizes (keep (sizes trials weights) trials) (keep (sizes trials weights) weights) =
      keep (sizes trials weights) (sizes trials weights) := by
  by_cases hgives : GivesTrials trials
  · have hsizes : sizes trials weights = trials := if_pos hgives
    obtain ⟨t, ht, hone⟩ := hgives
    have hpos : 0 < t := Binary64.lt_of_le_of_lt (by decide +kernel : (0 : Binary64) ≤ 1) hone
    rw [hsizes]
    exact if_pos ⟨t, mem_keep_self ht (not_idle_iff.mpr hpos), hone⟩
  · have hsizes : sizes trials weights = weights := if_neg hgives
    rw [hsizes]
    apply if_neg
    intro hkept
    obtain ⟨t, ht, hone⟩ := hkept
    exact hgives ⟨t, mem_of_mem_keep ht, hone⟩

theorem Complete.kept (h : Complete y trials mu weights) :
    Complete (keep (sizes trials weights) y) (keep (sizes trials weights) trials)
      (keep (sizes trials weights) mu) (keep (sizes trials weights) weights) := by
  have hy := h.sizes_length
  constructor
  case trials_length => rw [length_keep (h.trials_length.trans hy.symm), length_keep hy.symm]
  case mu_length => rw [length_keep (h.mu_length.trans hy.symm), length_keep hy.symm]
  case weights_length => rw [length_keep (h.weights_length.trans hy.symm), length_keep hy.symm]
  case inUnit => exact fun v hv => h.inUnit v (mem_of_mem_keep hv)

theorem Complete.rowsOf_kept (h : Complete y trials mu weights) :
    rowsOf (keep (sizes trials weights) y) (keep (sizes trials weights) trials)
        (keep (sizes trials weights) mu) (keep (sizes trials weights) weights) =
      (rowsOf y trials mu weights).filter fun o => o.Contributes := by
  have hkept := h.kept.columns
  rw [sizes_keep] at hkept
  rw [← hkept.observations_eq, h.columns.kept.observations_eq]

/-- What has no influence on the criterion: the elements at the positions without trials, these
positions themselves once the criterion has a value, and numbers of trials none of which exceeds
one. -/
structure IgnoresIdle (fns : Elementary Binary64) (y trials mu weights : List Binary64) :
    Prop where
  changed : ∀ y' mu' weights', ChangedIdle y trials mu weights y' mu' weights' →
    fns.aic y' trials mu' weights' = fns.aic y trials mu weights
  deleted : ∀ value, fns.aic y trials mu weights = .ok value →
    fns.aic (keep (sizes trials weights) y) (keep (sizes trials weights) trials)
      (keep (sizes trials weights) mu) (keep (sizes trials weights) weights) = .ok value
  replaced : ¬GivesTrials trials → ∀ trials', Fits y.length trials' → ¬GivesTrials trials' →
    fns.aic y trials' mu weights = fns.aic y trials mu weights

theorem aic_ignoresIdle (fns : Elementary Binary64) (h : Complete y trials mu weights) :
    IgnoresIdle fns y trials mu weights := by
  constructor
  case changed =>
    intro y' mu' weights' hchanged
    rw [hchanged.complete.aic_eq, h.aic_eq, logLikelihood_congr fns (hchanged.interchangeable h)]
  case deleted =>
    intro value hvalue
    obtain ⟨-, -, haccepted⟩ := (aicOutcome fns).ok_iff.mp ⟨value, hvalue⟩
    have hmeans := inUnit_of_not_rejects (.inl h.trials_length) (.inl h.mu_length)
      (.inl h.weights_length) haccepted
    rw [h.kept.aic_eq, h.rowsOf_kept, logLikelihood_filter fns hmeans, ← h.aic_eq, hvalue]
  case replaced =>
    intro hgives trials' hfits hgives'
    have hrows : rowsOf y trials' mu weights = rowsOf y trials mu weights := by
      unfold rowsOf sizes
      rw [if_neg hgives, if_neg hgives']
    have hchecks : aicChecks y trials' mu weights = .ok ⟨⟩ :=
      aicChecks_eq_ok_iff.mpr
        ⟨⟨hfits, .inl h.mu_length, .inl h.weights_length⟩, h.inUnit⟩
    rw [fns.aic_eq, fns.aic_eq, hchecks, h.checks, hrows]

/-- The second observation has no trials, and its mean is NaN. -/
theorem aic_ignoresIdle_second :
    (∃ value, Elementary.tabulated.aic [0.5, 0] [2, 0] [0.5, .nan] [1, 1] = .ok value) ∧
      IgnoresIdle Elementary.tabulated [0.5, 0] [2, 0] [0.5, .nan] [1, 1] := by
  have h : Complete [0.5, 0] [2, 0] [0.5, .nan] [1, 1] := ⟨rfl, rfl, rfl, by decide +kernel⟩
  refine ⟨?_, aic_ignoresIdle Elementary.tabulated h⟩
  rw [h.aic_eq, logLikelihood_eq_ok Elementary.tabulated (by decide +kernel)]
  exact ⟨_, rfl⟩

end Criterion

end BinomialLogit
