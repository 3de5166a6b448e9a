import BinomialLogit.Proofs.Recycling.Checks

/-! The operations on several vectors as loops over positions. Each element is read where it stands,
and a read past the end of its vector ends the run without any answer. The checks come first and let
no run end so: the loops answer, and what they answer is what the operations on whole vectors do. -/

namespace BinomialLogit
set_option autoImplicit false
universe u v

section Loops
variable {α ε : Type u} {β : Type v}

/-- Checks before a run. What they refuse is not run. -/
def afterChecks {γ : Type u} (checks : Except ε γ) (run : Option (Except ε α)) :
    Option (Except ε α) :=
  match checks with
  | .error e => some (.error e)
  | .ok _ => run

def eachPosition (n : Nat) (f : Nat → Option α) : Option (List α) := (List.range n).mapM f

private theorem mapM_range'_eq_some {f : Nat → Option α} {g : β → α} {rows : List β} {k : Nat}
    (h : ∀ i r, rows[i]? = some r → f (k + i) = some (g r)) :
    (List.range' k rows.length).mapM f = some (rows.map g) := by
  induction rows generalizing k with
  | nil => rfl
  | cons r rows ih =>
    have hr : f k = some (g r) := h 0 r rfl
    have hrows : (List.range' (k + 1) rows.length).mapM f = some (rows.map g) := by
      apply ih
      intro i r' hi
      rw [Nat.add_assoc, Nat.add_comm 1 i]
      exact h (i + 1) r' hi
    rw [List.length_cons, List.range'_succ, List.mapM_cons, hr, hrows]
    rfl

theorem eachPosition_eq_some {n : Nat} {f : Nat → Option α} {g : β → α} {rows : List β}
    (hlength : rows.length = n) (h : ∀ i r, rows[i]? = some r → f i = some (g r)) :
    eachPosition n f = some (rows.map g) := by
  unfold eachPosition
  rw [← hlength, List.range_eq_range']
  apply mapM_range'_eq_some
  intro i r hi
  rw [Nat.zero_add]
  exact h i r hi

/-- A loop that may also stop at a fault of its own. -/
private theorem foldlM_range'_eq_some {step : α → Nat → ExceptT ε Option α}
    {g : α → β → Except ε α} {rows : List β} {k : Nat}
    (h : ∀ i r, rows[i]? = some r → ∀ a, step a (k + i) = ExceptT.mk (some (g a r))) (a : α) :
    (List.range' k rows.length).foldlM step a = ExceptT.mk (some (rows.foldlM g a)) := by
  induction rows generalizing k a with
  | nil => rfl
  | cons r rows ih =>
    have hr : step a k = ExceptT.mk (some (g a r)) := h 0 r rfl a
    have hrows : ∀ a', (List.range' (k + 1) rows.length).foldlM step a' =
        ExceptT.mk (some (rows.foldlM g a')) := by
      intro a'
      apply ih
      intro i r' hi
      rw [Nat.add_assoc, Nat.add_comm 1 i]
      exact h (i + 1) r' hi
    rw [List.length_cons, List.range'_succ, List.foldlM_cons, List.foldlM_cons, hr]
    cases g a r with
    | error e => rfl
    | ok a' => exact hrows a'

theorem foldlM_range_eq_some {n : Nat} {step : α → Nat → ExceptT ε Option α}
    {g : α → β → Except ε α} {rows : List β} (hlength : rows.length = n)
    (h : ∀ i r, rows[i]? = some r → ∀ a, step a i = ExceptT.mk (some (g a r))) (a : α) :
    (List.range n).foldlM step a = ExceptT.mk (some (rows.foldlM g a)) := by
  rw [← hlength, List.range_eq_range']
  apply foldlM_range'_eq_some
  intro i r hi
  rw [Nat.zero_add]
  exact h i r hi

end Loops

section Deviance
variable {F : Type u} [Add F] [Sub F] [Mul F] [Div F] [OfNat F 0] [OfNat F 1] [OfNat F 2]
  [LE F] [DecidableLE F] {y mu weights : List F}

namespace Elementary

def devianceAt? (fns : Elementary F) (y mu weights : List F) (i : Nat) : Option F := do
  let v ← y[i]?
  let m ← recycledAt? mu i
  let w ← recycledAt? weights i
  return fns.devianceAt v m w

def devianceByPosition (fns : Elementary F) (y mu weights : List F) :
    Option (Except (Fault F) (List F)) :=
  afterChecks (devianceChecks y mu weights) do
    let residuals ← eachPosition y.length (fns.devianceAt? y mu weights)
    return .ok residuals

theorem devianceAt?_eq_some (fns : Elementary F) {i : Nat} {row : F × F × F}
    (h : (y.zip ((expand y.length mu).zip (expand y.length weights)))[i]? = some row) :
    fns.devianceAt? y mu weights i = some (fns.devianceAt row.1 row.2.1 row.2.2) := by
  obtain ⟨hv, hmw⟩ := List.getElem?_zip_eq_some.mp h
  obtain ⟨hm, hw⟩ := List.getElem?_zip_eq_some.mp hmw
  have hi : i < y.length := (List.getElem?_eq_some_iff.mp hv).1
  unfold devianceAt?
  rw [hv, recycledAt?_eq_some hm hi, recycledAt?_eq_some hw hi]
  rfl

theorem devianceByPosition_eq (fns : Elementary F) (y mu weights : List F) :
    fns.devianceByPosition y mu weights = some (fns.devianceResiduals y mu weights) := by
  rw [fns.devianceResiduals_eq]
  unfold devianceByPosition
  cases hchecks : devianceChecks y mu weights with
  | error e => rfl
  | ok _ =>
    obtain ⟨hmu, hweights⟩ := devianceChecks_eq_ok_iff.mp hchecks
    have hlength : (y.zip ((expand y.length mu).zip (expand y.length weights))).length =
        y.length := by
      simp [length_expand hmu, length_expand hweights]
    have hloop : eachPosition y.length (fns.devianceAt? y mu weights) = some _ :=
      eachPosition_eq_some hlength fun _ _ hi => fns.devianceAt?_eq_some hi
    unfold afterChecks
    rw [hloop]
    rfl

end Elementary

end Deviance

section Starting
variable {y weights : List Binary64}

def weighedAt? (y weights : List Binary64) (i : Nat) : Option (Binary64 × Binary64) := do
  let w ← recycledAt? weights i
  let v ← y[i]?
  return (v, w)

/-- Two loops: one counts, one computes. -/
def startingByPosition (y weights : List Binary64) : Option (Answer Binary64 (List Binary64)) :=
  match startingChecks y weights with
  | .error e => some ⟨[], .error e⟩
  | .ok _ => do
    let fractional ← eachPosition y.length fun i => do
      let (v, w) ← weighedAt? y weights i
      return decide (IsFractional (w * v))
    let means ← eachPosition y.length fun i => do
      let (v, w) ← weighedAt? y weights i
      return startingMeanAt v w
    return ⟨fractionalLog (fractional.countP id) y.length, .ok means⟩

theorem weighedAt?_eq_some {i : Nat} {row : Binary64 × Binary64}
    (h : (y.zip (expand y.length weights))[i]? = some row) :
    weighedAt? y weights i = some row := by
  obtain ⟨hv, hw⟩ := List.getElem?_zip_eq_some.mp h
  have hi : i < y.length := (List.getElem?_eq_some_iff.mp hv).1
  unfold weighedAt?
  rw [hv, recycledAt?_eq_some hw hi]
  rfl

theorem startingByPosition_eq (y weights : List Binary64) :
    startingByPosition y weights = some (startingMeans y weights) := by
  rw [startingMeans_eq]
  unfold startingByPosition
  cases hchecks : startingChecks y weights with
  | error e => rfl
  | ok _ =>
    obtain ⟨hweights, -⟩ := startingChecks_eq_ok_iff.mp hchecks
    have hlength : (y.zip (expand y.length weights)).length = y.length := by
      simp [length_expand hweights]
    have hloop {β : Type} (g : Binary64 × Binary64 → β) :
        (eachPosition y.length fun i => do
          let row ← weighedAt? y weights i
          return g row) = some ((y.zip (expand y.length weights)).map g) := by
      apply eachPosition_eq_some hlength
      intro i row hi
      rw [weighedAt?_eq_some hi]
      rfl
    have hfractional := hloop fun (v, w) => decide (IsFractional (w * v))
    have hmeans := hloop fun (v, w) => startingMeanAt v w
    dsimp only
    rw [hfractional, hmeans]
    change some (Answer.mk (fractionalLog (List.countP id _) _) _) = _
    rw [List.countP_map]
    rfl

end Starting

section Likelihood
variable {y trials mu weights : List Binary64}

namespace Elementary

/-- One turn of the loop. An observation without trials is passed over before its mean is read. -/
def addTermAt? (fns : Elementary Binary64) (y trials mu weights : List Binary64)
    (sum : Binary64) (i : Nat) : ExceptT (Fault Binary64) Option Binary64 := do
  let v ← ExceptT.lift y[i]?
  let w ← ExceptT.lift (recycledAt? weights i)
  let size ← ExceptT.lift (if GivesTrials trials then recycledAt? trials i else some w)
  if 0 < size then
    let m ← ExceptT.lift (recycledAt? mu i)
    let term ← ExceptT.mk (some (Observation.term? fns ⟨v, size, m, w⟩ i))
    return sum + term
  else
    return sum

def aicByPosition (fns : Elementary Binary64) (y trials mu weights : List Binary64) :
    Option (Except (Fault Binary64) Binary64) :=
  afterChecks (aicChecks y trials mu weights) <| ExceptT.run do
    let likelihood ← (List.range y.length).foldlM (fns.addTermAt? y trials mu weights) 0
    return -2 * likelihood

def addTerm (fns : Elementary Binary64) (sum : Binary64) (row : Observation × Nat) :
    Except (Fault Binary64) Binary64 :=
  if row.1.Contributes then (row.1.term? fns row.2).map (sum + ·) else .ok sum

theorem foldlM_addTerm (fns : Elementary Binary64) (rows : List (Observation × Nat))
    (sum : Binary64) : rows.foldlM fns.addTerm sum = do
      let terms ← (rows.filter fun (o, _) => o.Contributes).mapM fun (o, i) => o.term? fns i
      return terms.foldl (· + ·) sum := by
  induction rows generalizing sum with
  | nil => rfl
  | cons row rows ih =>
    obtain ⟨o, i⟩ := row
    rw [List.foldlM_cons, addTerm]
    by_cases h : o.Contributes
    · rw [if_pos h, List.filter_cons_of_pos (by simpa using h), List.mapM_cons]
      change _ = (o.term? fns i >>= _) >>= _
      cases o.term? fns i with
      | error e => rfl
      | ok term =>
        refine (ih (sum + term)).trans ?_
        change _ = (_ >>= fun terms => Except.ok (term :: terms)) >>= _
        cases (rows.filter fun (o, _) => o.Contributes).mapM fun (o, i) => o.term? fns i with
        | error e => rfl
        | ok terms => rfl
    · rw [if_neg h, List.filter_cons_of_neg (by simpa using h)]
      exact ih sum

theorem addTermAt?_eq (fns : Elementary Binary64) {i : Nat} {o : Observation}
    (h : (rowsOf y trials mu weights)[i]? = some o) (sum : Binary64) :
    fns.addTermAt? y trials mu weights sum i = ExceptT.mk (some (fns.addTerm sum (o, i))) := by
  obtain ⟨hv, hs, hm, hw⟩ := getElem?_rowsOf h
  have hsize : (if GivesTrials trials then recycledAt? trials i else some o.weight) =
      some o.size := by
    rw [← hs, ← hw]
    exact (apply_ite (recycledAt? · i) _ trials weights).symm
  unfold addTermAt? addTerm
  rw [hv, hw]
  change (do
    let size ← ExceptT.lift (if GivesTrials trials then recycledAt? trials i else some o.weight)
    _ : ExceptT _ _ _) = _
  rw [hsize, hm]
  change (if 0 < o.size then _ else _ : ExceptT (Fault Binary64) Option Binary64) =
    ExceptT.mk (some (if 0 < o.size then _ else _))
  split
  · change (ExceptT.mk (some (o.term? fns i)) >>= fun term => pure (sum + term)) = _
    cases o.term? fns i with
    | error e => rfl
    | ok term => rfl
  · rfl

theorem aicByPosition_eq (fns : Elementary Binary64) (y trials mu weights : List Binary64) :
    fns.aicByPosition y trials mu weights = some (fns.aic y trials mu weights) := by
  rw [fns.aic_eq]
  unfold aicByPosition
  cases hchecks : aicChecks y trials mu weights with
  | error e => rfl
  | ok _ =>
    obtain ⟨⟨htrials, hmu, hweights⟩, -⟩ := aicChecks_eq_ok_iff.mp hchecks
    have hlength : (rowsOf y trials mu weights).zipIdx.length = y.length := by
      rw [List.length_zipIdx, length_rowsOf htrials hmu hweights]
    have hloop : (List.range y.length).foldlM (fns.addTermAt? y trials mu weights) 0 =
        ExceptT.mk (some ((rowsOf y trials mu weights).zipIdx.foldlM fns.addTerm 0)) := by
      apply foldlM_range_eq_some (g := fns.addTerm) hlength
      intro i row hi sum
      obtain ⟨o, j⟩ := row
      rw [List.getElem?_zipIdx, Option.map_eq_some_iff] at hi
      obtain ⟨o', ho, heq⟩ := hi
      rw [Nat.zero_add] at heq
      cases heq
      exact fns.addTermAt?_eq ho sum
    unfold afterChecks
    dsimp only
    rw [hloop, foldlM_addTerm]
    unfold logLikelihood total
    change _ = some ((_ >>= fun terms => Except.ok _) >>= _)
    cases ((rowsOf y trials mu weights).zipIdx.filter fun (o, _) => o.Contributes).mapM
        fun (o, i) => o.term? fns i with
    | error e => rfl
    | ok terms => rfl

end Elementary

end Likelihood

end BinomialLogit
