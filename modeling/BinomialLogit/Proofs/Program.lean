import BinomialLogit.Program

/-! Programs have no hidden state. Each step is answered by its operation on what its operands hold
when it is made, it changes its target at most, and two adjacent steps that do not touch each other's
registers can be exchanged. -/

namespace BinomialLogit
set_option autoImplicit false
universe u v w

theorem Store.ext {s s' : Store} (h : ∀ name, s.read name = s'.read name) : s = s' := funext h

namespace Operand

inductive Holds (s : Store) : Operand → List Binary64 → Prop
  | given (values : List Binary64) : Holds s (.given values) values
  | register (name : String) : Holds s (.register name) (s.read name)

theorem holds_resolve (s : Store) (o : Operand) : o.Holds s (o.resolve s) := by
  cases o with
  | given values => exact .given values
  | register name => exact .register name

def register? : Operand → Option String
  | given _ => none
  | register name => some name

theorem resolve_congr {s s' : Store} {o : Operand}
    (h : ∀ name, o.register? = some name → s.read name = s'.read name) :
    o.resolve s = o.resolve s' := by
  cases o with
  | given values => rfl
  | register name => exact h name rfl

end Operand

namespace Call

/-- The operation, applied to what the operands hold, has this answer. -/
inductive Answered (L : Logit Binary64) (s : Store) : Call Operand → Answer Binary64 Value → Prop
  | link {o : Operand} {mu : List Binary64} (hmu : o.Holds s mu) :
    Answered L s (.link o) ⟨[], (L.link mu).map .vector⟩
  | inverseLink {o : Operand} {eta : List Binary64} (heta : o.Holds s eta) :
    Answered L s (.inverseLink o)
      ⟨(L.inverseLink eta).log, (L.inverseLink eta).outcome.map .vector⟩
  | meanDerivative {o : Operand} {eta : List Binary64} (heta : o.Holds s eta) :
    Answered L s (.meanDerivative o)
      ⟨(L.meanDerivative eta).log, (L.meanDerivative eta).outcome.map .vector⟩
  | variance {o : Operand} {mu : List Binary64} (hmu : o.Holds s mu) :
    Answered L s (.variance o) ⟨[], (BinomialLogit.variance mu).map .vector⟩
  | validPredictor {o : Operand} {eta : List Binary64} (heta : o.Holds s eta) :
    Answered L s (.validPredictor o) ⟨[], .ok (.truth (ValidPredictor eta))⟩
  | validMean {o : Operand} {mu : List Binary64} (hmu : o.Holds s mu) :
    Answered L s (.validMean o) ⟨[], .ok (.truth (ValidMean mu))⟩
  | devianceResiduals {oy omu oweights : Operand} {y mu weights : List Binary64}
    (hy : oy.Holds s y) (hmu : omu.Holds s mu) (hweights : oweights.Holds s weights) :
    Answered L s (.devianceResiduals oy omu oweights)
      ⟨[], (L.devianceResiduals y mu weights).map .vector⟩
  | startingMeans {oy oweights : Operand} {y weights : List Binary64}
    (hy : oy.Holds s y) (hweights : oweights.Holds s weights) :
    Answered L s (.startingMeans oy oweights)
      ⟨(BinomialLogit.startingMeans y weights).log,
        (BinomialLogit.startingMeans y weights).outcome.map .vector⟩
  | aic {oy otrials omu oweights : Operand} {y trials mu weights : List Binary64}
    (hy : oy.Holds s y) (htrials : otrials.Holds s trials) (hmu : omu.Holds s mu)
    (hweights : oweights.Holds s weights) :
    Answered L s (.aic oy otrials omu oweights) ⟨[], (L.aic y trials mu weights).map .number⟩

theorem map_map {α : Type u} {β : Type v} {γ : Type w} (f : α → β) (g : β → γ)
    (c : Call α) : (c.map f).map g = c.map (g ∘ f) := by
  cases c <;> rfl

theorem answered_resolve (L : Logit Binary64) (s : Store) (c : Call Operand) :
    c.Answered L s ((c.map (Operand.resolve s)).answer L) := by
  cases c with
  | link mu =>
    rw [map, answer, Answer.map_eq]
    exact .link (mu.holds_resolve s)
  | inverseLink eta =>
    rw [map, answer, Answer.map_eq]
    exact .inverseLink (eta.holds_resolve s)
  | meanDerivative eta =>
    rw [map, answer, Answer.map_eq]
    exact .meanDerivative (eta.holds_resolve s)
  | variance mu =>
    rw [map, answer, Answer.map_eq]
    exact .variance (mu.holds_resolve s)
  | validPredictor eta => exact .validPredictor (eta.holds_resolve s)
  | validMean mu => exact .validMean (mu.holds_resolve s)
  | devianceResiduals y mu weights =>
    rw [map, answer, Answer.map_eq]
    exact .devianceResiduals (y.holds_resolve s) (mu.holds_resolve s) (weights.holds_resolve s)
  | startingMeans y weights =>
    rw [map, answer, Answer.map_eq]
    exact .startingMeans (y.holds_resolve s) (weights.holds_resolve s)
  | aic y trials mu weights =>
    rw [map, answer, Answer.map_eq]
    exact .aic (y.holds_resolve s) (trials.holds_resolve s) (mu.holds_resolve s)
      (weights.holds_resolve s)

end Call

namespace Step

def reads (step : Step) : List String := step.call.operands.filterMap Operand.register?

def after (L : Logit Binary64) (s : Store) (step : Step) : Store :=
  step.store s (step.answer L s).outcome

/-- The step puts numbers into this register. One that fails or answers a truth value puts them
into none, whatever its target is. -/
def Writes (L : Logit Binary64) (s : Store) (step : Step) (name : String) : Prop :=
  step.target = some name ∧
    ∃ value values, (step.answer L s).outcome = .ok value ∧ value.stored? = some values

/-- The same call with the contents of its operands given outright, and kept nowhere. -/
def alone (s : Store) (step : Step) : Step :=
  ⟨step.call.map fun o => .given (o.resolve s), none⟩

/-- What a step with this outcome does to the registers. -/
inductive Effect (step : Step) (outcome : Except (Fault Binary64) Value) (before after : Store) :
    Prop
  | failed (e : Fault Binary64) (houtcome : outcome = .error e) (hkept : after = before)
  | truth (b : Bool) (houtcome : outcome = .ok (.truth b)) (hkept : after = before)
  | untargeted (htarget : step.target = none) (hkept : after = before)
  | stored (name : String) (values : List Binary64) (htarget : step.target = some name)
    (houtcome : outcome = .ok (.vector values) ∨ ∃ x, outcome = .ok (.number x) ∧ values = [x])
    (hread : after.read name = values)
    (hothers : ∀ other, other ≠ name → after.read other = before.read other)

section Answers
variable (L : Logit Binary64) {s s' : Store} {step : Step}

/-- A step sees the registers its operands name and no others. -/
theorem answer_congr (h : ∀ name ∈ step.reads, s.read name = s'.read name) :
    step.answer L s = step.answer L s' := by
  unfold answer
  congr 1
  apply Call.map_congr
  intro o ho
  apply Operand.resolve_congr
  intro name hname
  exact h name (List.mem_filterMap.mpr ⟨o, ho, hname⟩)

theorem answer_alone (other : Store) : (step.alone s).answer L other = step.answer L s := by
  unfold answer alone
  rw [Call.map_map]
  rfl

theorem after_alone (other : Store) : (step.alone s).after L other = other := rfl

end Answers

section Registers
variable {L : Logit Binary64} {s : Store} {step : Step} {name : String}

/-- What is written depends on the answer alone. -/
theorem after_of_stored {value : Value} {values : List Binary64} (htarget : step.target = some name)
    (houtcome : (step.answer L s).outcome = .ok value) (hstored : value.stored? = some values) :
    step.after L s = s.write name values := by
  unfold after store
  simp only [htarget, houtcome, hstored]

theorem read_after_of_not_writes (h : ¬step.Writes L s name) :
    (step.after L s).read name = s.read name := by
  unfold Writes at h
  unfold after store
  split
  · rename_i target value htarget houtcome
    split
    · rename_i values hstored
      apply Store.read_write_of_ne
      rintro rfl
      exact h ⟨htarget, value, values, houtcome, hstored⟩
    · rfl
  · rfl

theorem effect_after (L : Logit Binary64) (s : Store) (step : Step) :
    step.Effect (step.answer L s).outcome s (step.after L s) := by
  unfold after store
  cases htarget : step.target with
  | none => exact .untargeted htarget rfl
  | some name =>
    cases (step.answer L s).outcome with
    | error e => exact .failed e rfl rfl
    | ok value =>
      cases value with
      | truth b => exact .truth b rfl rfl
      | vector values =>
        exact .stored name values htarget (.inl rfl) (Store.read_write_self s name values)
          fun other => Store.read_write_of_ne
      | number x =>
        exact .stored name [x] htarget (.inr ⟨x, rfl, rfl⟩) (Store.read_write_self s name [x])
          fun other => Store.read_write_of_ne

end Registers

/-- Neither of two steps, made from these registers, writes what the other reads or writes. -/
structure Independent (L : Logit Binary64) (s : Store) (a b : Step) : Prop where
  first : ∀ name, a.Writes L s name → name ∉ b.reads ∧ ¬b.Writes L s name
  second : ∀ name, b.Writes L s name → name ∉ a.reads ∧ ¬a.Writes L s name

/-- Nothing needs to be known of the outcomes when the targets are out of the way. -/
theorem independent_of_targets {L : Logit Binary64} {s : Store} {a b : Step}
    (ha : ∀ name ∈ a.target, name ∉ b.reads) (hb : ∀ name ∈ b.target, name ∉ a.reads)
    (hab : ∀ name ∈ a.target, name ∉ b.target) : Independent L s a b := by
  constructor
  · intro name hwrites
    exact ⟨ha name hwrites.1, fun hother => hab name hwrites.1 hother.1⟩
  · intro name hwrites
    exact ⟨hb name hwrites.1, fun hother => hab name hother.1 hwrites.1⟩

namespace Independent
variable {L : Logit Binary64} {s : Store} {a b : Step}

theorem symm (h : Independent L s a b) : Independent L s b a := ⟨h.second, h.first⟩

theorem answer_after (h : Independent L s a b) : b.answer L (a.after L s) = b.answer L s := by
  apply answer_congr
  intro name hreads
  apply read_after_of_not_writes
  intro hwrites
  exact (h.first name hwrites).1 hreads

theorem writes_after_iff (h : Independent L s a b) {name : String} :
    b.Writes L (a.after L s) name ↔ b.Writes L s name := by
  unfold Writes
  rw [h.answer_after]

/-- What the first step writes, it writes also from the registers after the second. -/
theorem read_after_of_writes (h : Independent L s a b) {name : String}
    (hwrites : a.Writes L s name) : (b.after L (a.after L s)).read name =
      (a.after L (b.after L s)).read name := by
  have hb : ¬b.Writes L (a.after L s) name := fun hb =>
    (h.first name hwrites).2 (h.writes_after_iff.mp hb)
  obtain ⟨htarget, value, values, houtcome, hstored⟩ := hwrites
  have houtcome' : (a.answer L (b.after L s)).outcome = .ok value := by
    rw [h.symm.answer_after, houtcome]
  rw [read_after_of_not_writes hb, after_of_stored htarget houtcome hstored,
    after_of_stored htarget houtcome' hstored, Store.read_write_self, Store.read_write_self]

theorem after_comm (h : Independent L s a b) :
    b.after L (a.after L s) = a.after L (b.after L s) := by
  apply Store.ext
  intro name
  by_cases ha : a.Writes L s name
  · exact h.read_after_of_writes ha
  by_cases hb : b.Writes L s name
  · exact (h.symm.read_after_of_writes hb).symm
  rw [read_after_of_not_writes (mt h.writes_after_iff.mp hb), read_after_of_not_writes ha,
    read_after_of_not_writes (mt h.symm.writes_after_iff.mp ha), read_after_of_not_writes hb]

end Independent

end Step

/-- Two runs that differ in this only: the answers at `i` and behind it have changed places. -/
inductive Exchanged (i : Nat) : List (Answer Binary64 Value) × Store →
    List (Answer Binary64 Value) × Store → Prop
  | intro (xs ys : List (Answer Binary64 Value)) (x y : Answer Binary64 Value) (final : Store)
    (hlength : xs.length = i) : Exchanged i (xs ++ x :: y :: ys, final) (xs ++ y :: x :: ys, final)

namespace Program
variable (L : Logit Binary64) {s : Store}

theorem run_cons_after (step : Step) (rest : Program) : run L s (step :: rest) =
    (step.answer L s :: (run L (step.after L s) rest).1, (run L (step.after L s) rest).2) := rfl

/-- A program in two parts: the second starts from the registers that the first one leaves. -/
theorem run_append (p q : Program) : run L s (p ++ q) =
    ((run L s p).1 ++ (run L (run L s p).2 q).1, (run L (run L s p).2 q).2) := by
  induction p generalizing s with
  | nil => rfl
  | cons step rest ih => rw [List.cons_append, run_cons_after, run_cons_after, ih]; rfl

/-- The registers when step `i` is about to be made. -/
def registersAt (L : Logit Binary64) (s : Store) (p : Program) (i : Nat) : Store :=
  (run L s (p.take i)).2

theorem registersAt_succ {p : Program} {i : Nat} {step : Step} (h : p[i]? = some step) :
    registersAt L s p (i + 1) = step.after L (registersAt L s p i) := by
  unfold registersAt
  rw [List.take_add_one, h, run_append]
  rfl

theorem getElem?_run {p : Program} {i : Nat} {step : Step} (h : p[i]? = some step) :
    (run L s p).1[i]? = some (step.answer L (registersAt L s p i)) := by
  induction p generalizing s i with
  | nil => cases h
  | cons first rest ih =>
    cases i with
    | zero =>
      cases h
      rfl
    | succ i => exact ih h

theorem run_exchanged {a b : Step} (before rest : Program)
    (h : a.Independent L (run L s before).2 b) :
    Exchanged before.length (run L s (before ++ a :: b :: rest))
      (run L s (before ++ b :: a :: rest)) := by
  rw [run_append, run_append, run_cons_after, run_cons_after, run_cons_after, run_cons_after,
    h.answer_after, h.symm.answer_after, h.after_comm]
  exact .intro _ _ _ _ _ (length_run L s before)

end Program

/-- How a program runs from the registers `s`, step by step. -/
structure Transparent (L : Logit Binary64) (s : Store) (p : Program) : Prop where
  length : (p.run L s).1.length = p.length
  start : p.registersAt L s 0 = s
  final : p.registersAt L s p.length = (p.run L s).2
  /-- A step is answered from the registers before it. -/
  answered : ∀ (i : Nat) step, p[i]? = some step →
    (p.run L s).1[i]? = some (step.answer L (p.registersAt L s i))
  operation : ∀ (i : Nat) step, p[i]? = some step →
    step.call.Answered L (p.registersAt L s i) (step.answer L (p.registersAt L s i))
  /-- The contents of the operands are all that a step depends on: made alone, the registers around
  it may be any others. -/
  alone : ∀ (i : Nat) step, p[i]? = some step → ∀ other,
    (step.alone (p.registersAt L s i)).answer L other = step.answer L (p.registersAt L s i) ∧
      Program.run L other [step.alone (p.registersAt L s i)] =
        ([step.answer L (p.registersAt L s i)], other)
  effect : ∀ (i : Nat) step, p[i]? = some step →
    step.Effect (step.answer L (p.registersAt L s i)).outcome
      (p.registersAt L s i) (p.registersAt L s (i + 1))
  exchange : ∀ (before : Program) (a b : Step) (rest : Program), p = before ++ a :: b :: rest →
    a.Independent L (p.registersAt L s before.length) b →
    Exchanged before.length (p.run L s) (Program.run L s (before ++ b :: a :: rest))

/-- Every step of a program has the answer of its operation alone, touches no register but its
target, and can change places with an independent neighbour. -/
theorem run_transparent (L : Logit Binary64) (s : Store) (p : Program) : Transparent L s p := by
  constructor
  case length => exact Program.length_run L s p
  case start => rfl
  case final =>
    unfold Program.registersAt
    rw [List.take_length]
  case answered => exact fun i step => Program.getElem?_run L
  case operation => exact fun i step _ => step.call.answered_resolve L _
  case alone =>
    intro i step _ other
    refine ⟨Step.answer_alone L other, ?_⟩
    rw [Program.run_cons_after, Step.answer_alone, Step.after_alone]
    rfl
  case effect =>
    intro i step hstep
    rw [Program.registersAt_succ L hstep]
    exact Step.effect_after L _ step
  case exchange =>
    intro before a b rest hp hindependent
    subst hp
    unfold Program.registersAt at hindependent
    rw [List.take_left] at hindependent
    exact Program.run_exchanged L before rest hindependent

/-- Two steps that read one register and write different ones, before a third that replaces what
they have read. -/
theorem run_transparent_two_readers :
    let link : Step := ⟨.link (.register "mu"), some "eta"⟩
    let variance : Step := ⟨.variance (.register "mu"), some "v"⟩
    let invert : Step := ⟨.inverseLink (.register "eta"), some "mu"⟩
    Exchanged 0 (Program.run .standard (Store.empty.write "mu" [0.5]) [link, variance, invert])
      (Program.run .standard (Store.empty.write "mu" [0.5]) [variance, link, invert]) := by
  intro link variance invert
  apply (run_transparent .standard _ [link, variance, invert]).exchange [] link variance [invert]
  · rfl
  · exact Step.independent_of_targets (by decide) (by decide) (by decide)

end BinomialLogit
