import BinomialLogit.Fault

/-! Answers: what a call came to, with the records it left on the way. Records keep their order,
and those left before a fault stay. -/

namespace BinomialLogit
set_option autoImplicit false
universe u v

inductive Record where
  /-- Means were computed; so many of the predictors were saturated. -/
  | saturated (count total : Nat)
  /-- Derivatives were computed; so many of the predictors were saturated. -/
  | floored (count total : Nat)
  /-- So many of the observations stand for a number of successes that is not whole. -/
  | fractional (count total : Nat)
  /-- A column is about to be read as doubles. -/
  | coercing (arg : String) (storage : Storage) (length : Nat)
  deriving DecidableEq

namespace Record

def level : Record → String
  | saturated .. | floored .. => "TRACE"
  | fractional .. => "WARN"
  | coercing .. => "DEBUG"

def text : Record → String
  | saturated count total =>
    "logit linkinv: " ++ count.repr ++ " of " ++ total.repr
      ++ " linear predictors saturated"
  | floored count total =>
    "logit mu_eta: " ++ count.repr ++ " of " ++ total.repr ++ " linear predictors floored"
  | fractional count total =>
    "non-integer #successes in a binomial glm (" ++ count.repr ++ " of " ++ total.repr
      ++ " observations)"
  | coercing arg storage length =>
    "coercing " ++ arg ++ " from " ++ storage.name ++ " to double (" ++ length.repr
      ++ " elements)"

def line (r : Record) : String := r.level ++ " " ++ r.text

end Record

structure Answer (F : Type u) (α : Type v) where
  log : List Record
  outcome : Except (Fault F) α

namespace Answer
variable {F : Type u} {α β γ : Type v}

protected def pure (a : α) : Answer F α := ⟨[], .ok a⟩

protected def bind (x : Answer F α) (f : α → Answer F β) : Answer F β :=
  match x.outcome with
  | .error e => ⟨x.log, .error e⟩
  | .ok a =>
    let y := f a
    ⟨x.log ++ y.log, y.outcome⟩

instance : Monad (Answer F) where
  pure := Answer.pure
  bind := Answer.bind

/-- A result that leaves nothing on record. -/
def silent (outcome : Except (Fault F) α) : Answer F α := ⟨[], outcome⟩

instance : MonadLift (Except (Fault F)) (Answer F) := ⟨silent⟩

def record (r : Record) : Answer F PUnit := ⟨[r], .ok ⟨⟩⟩

@[simp] theorem monadLift_eq (x : Except (Fault F) α) :
    (monadLift x : Answer F α) = silent x := rfl

@[simp] theorem silent_error_bind (e : Fault F) (f : α → Answer F β) :
    silent (.error e) >>= f = ⟨[], .error e⟩ := rfl

@[simp] theorem silent_ok_bind (a : α) (f : α → Answer F β) : silent (.ok a) >>= f = f a := rfl

@[simp] theorem record_bind (r : Record) (f : PUnit → Answer F α) :
    record r >>= f = ⟨r :: (f ⟨⟩).log, (f ⟨⟩).outcome⟩ := rfl

@[ext] theorem ext {x y : Answer F α} (hl : x.log = y.log) (ho : x.outcome = y.outcome) :
    x = y := by
  cases x
  cases y
  simp_all

@[simp] theorem mk_error_bind (log : List Record) (e : Fault F) (f : α → Answer F β) :
    (⟨log, .error e⟩ : Answer F α) >>= f = ⟨log, .error e⟩ := rfl

@[simp] theorem mk_ok_bind (log : List Record) (a : α) (f : α → Answer F β) :
    (⟨log, .ok a⟩ : Answer F α) >>= f = ⟨log ++ (f a).log, (f a).outcome⟩ := rfl

theorem map_eq (f : α → β) (x : Answer F α) : f <$> x = ⟨x.log, x.outcome.map f⟩ := by
  obtain ⟨log, _ | a⟩ := x
  · rfl
  · exact ext (List.append_nil log) rfl

theorem id_map_eq (x : Answer F α) : id <$> x = x := by
  rw [map_eq, Except.map_id]
  rfl

theorem bind_assoc_eq (x : Answer F α) (f : α → Answer F β) (g : β → Answer F γ) :
    x >>= f >>= g = x >>= fun a => f a >>= g := by
  obtain ⟨log, _ | a⟩ := x
  · rfl
  · rw [mk_ok_bind, mk_ok_bind]
    rcases f a with ⟨log', _ | b⟩
    · rfl
    · exact ext (List.append_assoc ..) rfl

instance : LawfulMonad (Answer F) :=
  LawfulMonad.mk' (Answer F) id_map_eq (fun _ _ => rfl) bind_assoc_eq

end Answer

end BinomialLogit
