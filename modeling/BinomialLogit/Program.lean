import BinomialLogit.Deviance
import BinomialLogit.Likelihood.Aic
import BinomialLogit.Logit
import BinomialLogit.StartingMeans

/-! Programs: sequences of operations on vectors that are given or held in named registers. Each
step is answered; one that ends in numbers may put them into a register. -/

namespace BinomialLogit
set_option autoImplicit false
universe u v

inductive Call (α : Type u) where
  | link (mu : α)
  | inverseLink (eta : α)
  | meanDerivative (eta : α)
  | variance (mu : α)
  | validPredictor (eta : α)
  | validMean (mu : α)
  | devianceResiduals (y mu weights : α)
  | startingMeans (y weights : α)
  | aic (y trials mu weights : α)

inductive Value where
  | vector (values : List Binary64)
  | number (value : Binary64)
  | truth (value : Bool)

namespace Value

def stored? : Value → Option (List Binary64)
  | vector values => some values
  | number value => some [value]
  | truth _ => none

end Value

namespace Call

def map {α : Type u} {β : Type v} (f : α → β) : Call α → Call β
  | link mu => link (f mu)
  | inverseLink eta => inverseLink (f eta)
  | meanDerivative eta => meanDerivative (f eta)
  | variance mu => variance (f mu)
  | validPredictor eta => validPredictor (f eta)
  | validMean mu => validMean (f mu)
  | devianceResiduals y mu weights => devianceResiduals (f y) (f mu) (f weights)
  | startingMeans y weights => startingMeans (f y) (f weights)
  | aic y trials mu weights => aic (f y) (f trials) (f mu) (f weights)

def operands {α : Type u} : Call α → List α
  | link x | inverseLink x | meanDerivative x | variance x | validPredictor x | validMean x => [x]
  | devianceResiduals y mu weights => [y, mu, weights]
  | startingMeans y weights => [y, weights]
  | aic y trials mu weights => [y, trials, mu, weights]

def answer (L : Logit Binary64) : Call (List Binary64) → Answer Binary64 Value
  | link mu => .vector <$> .silent (L.link mu)
  | inverseLink eta => .vector <$> L.inverseLink eta
  | meanDerivative eta => .vector <$> L.meanDerivative eta
  | variance mu => .vector <$> .silent (BinomialLogit.variance mu)
  | validPredictor eta => pure (.truth (ValidPredictor eta))
  | validMean mu => pure (.truth (ValidMean mu))
  | devianceResiduals y mu weights => .vector <$> .silent (L.devianceResiduals y mu weights)
  | startingMeans y weights => .vector <$> BinomialLogit.startingMeans y weights
  | aic y trials mu weights => .number <$> .silent (L.aic y trials mu weights)

theorem map_congr {α : Type u} {β : Type v} {f g : α → β} {c : Call α}
    (h : ∀ x ∈ c.operands, f x = g x) : c.map f = c.map g := by
  cases c <;> simp_all [map, operands]

end Call

/-- Registers by name. One that was never written holds nothing. -/
def Store : Type := String → List Binary64

namespace Store

def empty : Store := fun _ => []

def read (s : Store) (name : String) : List Binary64 := s name

def write (s : Store) (name : String) (values : List Binary64) : Store :=
  fun other => if other = name then values else s.read other

@[simp] theorem read_write_self (s : Store) (name : String) (values : List Binary64) :
    (s.write name values).read name = values := if_pos rfl

@[simp] theorem read_write_of_ne {s : Store} {name other : String} {values : List Binary64}
    (h : other ≠ name) : (s.write name values).read other = s.read other := if_neg h

end Store

inductive Operand where
  | given (values : List Binary64)
  | register (name : String)

def Operand.resolve (s : Store) : Operand → List Binary64
  | given values => values
  | register name => s.read name

structure Step where
  call : Call Operand
  /-- The register that takes the numbers, if any are to be kept. -/
  target : Option String

namespace Step

def answer (L : Logit Binary64) (s : Store) (step : Step) : Answer Binary64 Value :=
  (step.call.map (Operand.resolve s)).answer L

def store (s : Store) (step : Step) (outcome : Except (Fault Binary64) Value) : Store :=
  match step.target, outcome with
  | some name, .ok value =>
    match value.stored? with
    | some values => s.write name values
    | none => s
  | _, _ => s

end Step

abbrev Program := List Step

namespace Program

/-- The answers of the steps, in order, and the registers at the end. -/
def run (L : Logit Binary64) (s : Store) : Program → List (Answer Binary64 Value) × Store
  | [] => ([], s)
  | step :: rest =>
    let answer := step.answer L s
    let (answers, final) := run L (step.store s answer.outcome) rest
    (answer :: answers, final)

@[simp] theorem run_nil (L : Logit Binary64) (s : Store) : run L s [] = ([], s) := rfl

theorem run_cons (L : Logit Binary64) (s : Store) (step : Step) (rest : Program) :
    run L s (step :: rest) =
      let after := step.store s (step.answer L s).outcome
      (step.answer L s :: (run L after rest).1, (run L after rest).2) := rfl

theorem length_run (L : Logit Binary64) (s : Store) (p : Program) :
    (run L s p).1.length = p.length := by
  induction p generalizing s with
  | nil => rfl
  | cons step rest ih => simp [run_cons, ih]

end Program

end BinomialLogit
