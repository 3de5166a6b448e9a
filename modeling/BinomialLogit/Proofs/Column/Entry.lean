import BinomialLogit.Column.Entry
import BinomialLogit.Proofs.Rows

/-! Deviance residuals of columns. The columns are coerced one after the other, and what comes out
is what the doubles alone would give; a failed coercion ends the call before the next column is
looked at, and lengths are compared after all coercions. -/

namespace BinomialLogit
set_option autoImplicit false
universe u

namespace Answer
variable {F : Type u} {α β : Type u} {x : Answer F α} {f : α → Answer F β}

theorem bind_of_error {e : Fault F} (h : x.outcome = .error e) : x >>= f = ⟨x.log, .error e⟩ := by
  obtain ⟨log, outcome⟩ := x
  cases h
  rfl

theorem bind_of_ok {a : α} (h : x.outcome = .ok a) :
    x >>= f = ⟨x.log ++ (f a).log, (f a).outcome⟩ := by
  obtain ⟨log, outcome⟩ := x
  cases h
  rfl

end Answer

def failure? {α : Type u} : Except (Fault Binary64) α → Option (Fault Binary64)
  | .error e => some e
  | .ok _ => none

theorem failure?_eq_some {α : Type u} {outcome : Except (Fault Binary64) α} {e : Fault Binary64} :
    failure? outcome = some e ↔ outcome = .error e := by
  cases outcome <;> simp [failure?]

namespace Column
variable {arg : String} {c : Column} {xs : List Binary64} {e : Fault Binary64}

theorem outcome_coerce (arg : String) (c : Column) :
    (c.coerce arg).outcome = c.values arg := by
  rw [coerce_eq]

theorem length_of_coerce (h : (c.coerce arg).outcome = .ok xs) : xs.length = c.length := by
  rw [outcome_coerce] at h
  cases c with
  | double values =>
    cases h
    rfl
  | integer values =>
    cases h
    exact List.length_map _
  | logical values =>
    cases h
    exact List.length_map _
  | character values =>
    rw [values_character, mapLocated_eq_ok_iff] at h
    exact h.length_eq.symm

theorem exists_unreadable_of_coerce (h : (c.coerce arg).outcome = .error e) :
    ∃ index text, e = .unreadable arg index text := by
  rw [outcome_coerce] at h
  cases c with
  | double values => cases h
  | integer values => cases h
  | logical values => cases h
  | character values =>
    rw [values_character] at h
    obtain ⟨index, _, text, -, rfl⟩ := exists_firstError_of_mapLocated h
    exact ⟨index, text, rfl⟩

theorem coerce_ne_lengthMismatch {arg' : String} {length expected : ℕ} :
    (c.coerce arg).outcome ≠ .error (.lengthMismatch arg' length expected) := by
  intro h
  obtain ⟨index, text, heq⟩ := exists_unreadable_of_coerce h
  cases heq

/-- Arguments up to the first that cannot be coerced, this one included. -/
def attempted : List (String × Column) → List (String × Column)
  | [] => []
  | (arg, c) :: rest =>
    match (c.coerce arg).outcome with
    | .ok _ => (arg, c) :: attempted rest
    | .error _ => [(arg, c)]

theorem attempted_cons_ok (rest : List (String × Column)) (h : (c.coerce arg).outcome = .ok xs) :
    attempted ((arg, c) :: rest) = (arg, c) :: attempted rest := by
  rw [attempted, h]

theorem attempted_cons_error (rest : List (String × Column))
    (h : (c.coerce arg).outcome = .error e) : attempted ((arg, c) :: rest) = [(arg, c)] := by
  rw [attempted, h]

def note (arg : String) (c : Column) : String × String :=
  ("DEBUG", "coercing " ++ arg ++ " from " ++ c.storage.name ++ " to double (" ++ c.length.repr
    ++ " elements)")

def notes (args : List (String × Column)) : List (String × String) :=
  (args.filter fun a => a.2.storage ≠ .double).map fun a => note a.1 a.2

def shown (log : List Record) : List (String × String) := log.map fun r => (r.level, r.text)

theorem shown_append (log log' : List Record) : shown (log ++ log') = shown log ++ shown log' :=
  List.map_append

theorem notes_nil : notes [] = [] := rfl

theorem notes_cons (rest : List (String × Column)) :
    notes ((arg, c) :: rest) = shown (c.coerce arg).log ++ notes rest := by
  rw [coerce_eq]
  unfold notes coercionLog
  by_cases hstorage : c.storage = .double
  · rw [List.filter_cons_of_neg (by simp [hstorage]), if_neg (not_not.mpr hstorage)]
    rfl
  · rw [List.filter_cons_of_pos (by simp [hstorage]), if_pos hstorage]
    rfl

end Column

section Residuals
variable {y mu weights : Column} {fns : Elementary Binary64} {ys mus ws : List Binary64}
  {e : Fault Binary64}

/-- How a call can go: it ends at the first coercion that fails, or else as it does for doubles. -/
inductive ResidualsRun (fns : Elementary Binary64) (y mu weights : Column) :
    Answer Binary64 (List Binary64) → Prop
  | response {e : Fault Binary64} (hy : (y.coerce "y").outcome = .error e) :
    ResidualsRun fns y mu weights ⟨(y.coerce "y").log, .error e⟩
  | mean {ys : List Binary64} {e : Fault Binary64} (hy : (y.coerce "y").outcome = .ok ys)
    (hmu : (mu.coerce "mu").outcome = .error e) :
    ResidualsRun fns y mu weights ⟨(y.coerce "y").log ++ (mu.coerce "mu").log, .error e⟩
  | weight {ys mus : List Binary64} {e : Fault Binary64} (hy : (y.coerce "y").outcome = .ok ys)
    (hmu : (mu.coerce "mu").outcome = .ok mus)
    (hweights : (weights.coerce "wt").outcome = .error e) :
    ResidualsRun fns y mu weights
      ⟨(y.coerce "y").log ++ ((mu.coerce "mu").log ++ (weights.coerce "wt").log), .error e⟩
  | typed {ys mus ws : List Binary64} (hy : (y.coerce "y").outcome = .ok ys)
    (hmu : (mu.coerce "mu").outcome = .ok mus) (hweights : (weights.coerce "wt").outcome = .ok ws) :
    ResidualsRun fns y mu weights
      ⟨(y.coerce "y").log ++ ((mu.coerce "mu").log ++ (weights.coerce "wt").log),
        fns.devianceResiduals ys mus ws⟩

theorem devianceResidualsOf_run (fns : Elementary Binary64) (y mu weights : Column) :
    ResidualsRun fns y mu weights (fns.devianceResidualsOf y mu weights) := by
  unfold Elementary.devianceResidualsOf
  cases hy : (y.coerce "y").outcome with
  | error e =>
    rw [Answer.bind_of_error hy]
    exact .response hy
  | ok ys =>
    rw [Answer.bind_of_ok hy]
    cases hmu : (mu.coerce "mu").outcome with
    | error e =>
      rw [Answer.bind_of_error hmu]
      exact .mean hy hmu
    | ok mus =>
      rw [Answer.bind_of_ok hmu]
      cases hweights : (weights.coerce "wt").outcome with
      | error e =>
        rw [Answer.bind_of_error hweights]
        exact .weight hy hmu hweights
      | ok ws =>
        have hlog : (weights.coerce "wt").log ++ [] = (weights.coerce "wt").log :=
          List.append_nil _
        have htyped := @ResidualsRun.typed fns y mu weights ys mus ws hy hmu hweights
        rw [← hlog] at htyped
        rw [Answer.bind_of_ok hweights]
        exact htyped

def lengthFailures (y mu weights : ℕ) : List (Option (Fault Binary64)) :=
  [failure? (requireLength "mu" mu y : Except _ PUnit.{1}),
    failure? (requireLength "wt" weights y : Except _ PUnit.{1})]

def residualFailures (y mu weights : Column) : List (Option (Fault Binary64)) :=
  [failure? (y.coerce "y").outcome, failure? (mu.coerce "mu").outcome,
    failure? (weights.coerce "wt").outcome] ++ lengthFailures y.length mu.length weights.length

def residualArguments (y mu weights : Column) : List (String × Column) :=
  [("y", y), ("mu", mu), ("wt", weights)]

theorem failure?_devianceResiduals : failure? (fns.devianceResiduals ys mus ws) =
    (lengthFailures ys.length mus.length ws.length).findSome? id := by
  unfold Elementary.devianceResiduals recycle lengthFailures
  cases requireLength "mu" mus.length ys.length with
  | error e => rfl
  | ok _ =>
    cases requireLength "wt" ws.length ys.length with
    | error e => rfl
    | ok _ => rfl

/-- How the residuals of columns come from those of the doubles in them. -/
structure CoercedResiduals (fns : Elementary Binary64) (y mu weights : Column) : Prop where
  error_iff : ∀ e, (fns.devianceResidualsOf y mu weights).outcome = .error e ↔
    (residualFailures y mu weights).findSome? id = some e
  refines : ∀ ys mus ws : List Binary64, (y.coerce "y").outcome = .ok ys →
    (mu.coerce "mu").outcome = .ok mus → (weights.coerce "wt").outcome = .ok ws →
      (fns.devianceResidualsOf y mu weights).outcome = fns.devianceResiduals ys mus ws
  log : Column.shown (fns.devianceResidualsOf y mu weights).log =
    Column.notes (Column.attempted (residualArguments y mu weights))
  lengths_last : ∀ arg length expected, (fns.devianceResidualsOf y mu weights).outcome =
    .error (.lengthMismatch arg length expected) →
      Column.attempted (residualArguments y mu weights) = residualArguments y mu weights
  storage_irrelevant : ∀ (y' mu' weights' : Column) (ys mus ws : List Binary64),
    (y.coerce "y").outcome = .ok ys → (mu.coerce "mu").outcome = .ok mus →
    (weights.coerce "wt").outcome = .ok ws → (y'.coerce "y").outcome = .ok ys →
    (mu'.coerce "mu").outcome = .ok mus → (weights'.coerce "wt").outcome = .ok ws →
      (fns.devianceResidualsOf y mu weights).outcome =
        (fns.devianceResidualsOf y' mu' weights').outcome

theorem devianceResidualsOf_refines (hy : (y.coerce "y").outcome = .ok ys)
    (hmu : (mu.coerce "mu").outcome = .ok mus) (hweights : (weights.coerce "wt").outcome = .ok ws) :
    (fns.devianceResidualsOf y mu weights).outcome = fns.devianceResiduals ys mus ws := by
  unfold Elementary.devianceResidualsOf
  rw [Answer.bind_of_ok hy, Answer.bind_of_ok hmu, Answer.bind_of_ok hweights]
  rfl

theorem failure?_devianceResidualsOf :
    failure? (fns.devianceResidualsOf y mu weights).outcome =
      (residualFailures y mu weights).findSome? id := by
  unfold residualFailures
  rw [List.findSome?_append]
  have hrun := devianceResidualsOf_run fns y mu weights
  generalize fns.devianceResidualsOf y mu weights = answer at hrun
  cases hrun with
  | response hy =>
    rw [hy]
    rfl
  | mean hy hmu =>
    rw [hy, hmu]
    rfl
  | weight hy hmu hweights =>
    rw [hy, hmu, hweights]
    rfl
  | typed hy hmu hweights =>
    rw [hy, hmu, hweights, ← Column.length_of_coerce hy, ← Column.length_of_coerce hmu,
      ← Column.length_of_coerce hweights, failure?_devianceResiduals]
    rfl

theorem shown_devianceResidualsOf :
    Column.shown (fns.devianceResidualsOf y mu weights).log =
      Column.notes (Column.attempted (residualArguments y mu weights)) := by
  unfold residualArguments
  have hrun := devianceResidualsOf_run fns y mu weights
  generalize fns.devianceResidualsOf y mu weights = answer at hrun
  cases hrun with
  | response hy =>
    rw [Column.attempted_cons_error _ hy]
    simp only [Column.notes_cons, Column.notes_nil, List.append_nil]
  | mean hy hmu =>
    rw [Column.attempted_cons_ok _ hy, Column.attempted_cons_error _ hmu]
    simp only [Column.notes_cons, Column.notes_nil, Column.shown_append, List.append_nil]
  | weight hy hmu hweights =>
    rw [Column.attempted_cons_ok _ hy, Column.attempted_cons_ok _ hmu,
      Column.attempted_cons_error _ hweights]
    simp only [Column.notes_cons, Column.notes_nil, Column.shown_append, List.append_nil]
  | typed hy hmu hweights =>
    rw [Column.attempted_cons_ok _ hy, Column.attempted_cons_ok _ hmu,
      Column.attempted_cons_ok _ hweights]
    simp only [Column.attempted, Column.notes_cons, Column.notes_nil, Column.shown_append,
      List.append_nil]

theorem attempted_of_lengthMismatch {arg : String} {length expected : ℕ}
    (h : (fns.devianceResidualsOf y mu weights).outcome =
      .error (.lengthMismatch arg length expected)) :
    Column.attempted (residualArguments y mu weights) = residualArguments y mu weights := by
  unfold residualArguments
  have hrun := devianceResidualsOf_run fns y mu weights
  generalize fns.devianceResidualsOf y mu weights = answer at h hrun
  cases hrun with
  | response hy =>
    cases h
    exact absurd hy Column.coerce_ne_lengthMismatch
  | mean hy hmu =>
    cases h
    exact absurd hmu Column.coerce_ne_lengthMismatch
  | weight hy hmu hweights =>
    cases h
    exact absurd hweights Column.coerce_ne_lengthMismatch
  | typed hy hmu hweights =>
    rw [Column.attempted_cons_ok _ hy, Column.attempted_cons_ok _ hmu,
      Column.attempted_cons_ok _ hweights, Column.attempted]

/-- The call coerces its columns in order and then does what it does for doubles. -/
theorem coercedResiduals (fns : Elementary Binary64) (y mu weights : Column) :
    CoercedResiduals fns y mu weights := by
  constructor
  case error_iff =>
    intro e
    rw [← failure?_eq_some, failure?_devianceResidualsOf]
  case refines =>
    intro ys mus ws hy hmu hweights
    exact devianceResidualsOf_refines hy hmu hweights
  case log => exact shown_devianceResidualsOf
  case lengths_last =>
    intro arg length expected h
    exact attempted_of_lengthMismatch h
  case storage_irrelevant =>
    intro y' mu' weights' ys mus ws hy hmu hweights hy' hmu' hweights'
    rw [devianceResidualsOf_refines hy hmu hweights, devianceResidualsOf_refines hy' hmu' hweights']

end Residuals

end BinomialLogit
