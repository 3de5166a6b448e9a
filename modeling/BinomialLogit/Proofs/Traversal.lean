import Mathlib.Data.List.Forall2

/-! Traversals of a list that stop at the first fault: when none occurs, and which one is
reported. Most operations locate their faults: what is wrong with an element is reported with its
position. -/

namespace BinomialLogit
set_option autoImplicit false
universe u v w
variable {α : Type u} {β ε : Type v} {γ : Type w}

theorem mapM_eq_ok_map {f : α → Except ε β} {g : α → β} {xs : List α}
    (h : ∀ x ∈ xs, f x = .ok (g x)) : xs.mapM f = .ok (xs.map g) := by
  induction xs with
  | nil => rfl
  | cons x xs ih =>
    have hx := h x List.mem_cons_self
    have hxs := ih fun y hy => h y (List.mem_cons_of_mem x hy)
    rw [List.mapM_cons, hx, hxs]
    rfl

/-- What precedes the first fault does not change it, and what follows is not looked at. -/
theorem mapM_eq_error {f : α → Except ε β} {before after : List α} {x : α} {e : ε}
    (hbefore : ∀ y ∈ before, ∃ b, f y = .ok b) (hx : f x = .error e) :
    (before ++ x :: after).mapM f = .error e := by
  induction before with
  | nil =>
    rw [List.nil_append, List.mapM_cons, hx]
    rfl
  | cons y ys ih =>
    obtain ⟨b, hb⟩ := hbefore y List.mem_cons_self
    have hys := ih fun z hz => hbefore z (List.mem_cons_of_mem y hz)
    rw [List.cons_append, List.mapM_cons, hb]
    exact congrArg (fun r => r >>= fun bs => pure (b :: bs)) hys

/-- Every element under `f`; a complaint is reported with the position of its element. -/
def mapLocated (report : Nat → γ → ε) (f : α → Except γ β) (xs : List α) : Except ε (List β) :=
  xs.zipIdx.mapM fun (x, i) => (f x).mapError (report i)

section Located
variable {report : Nat → γ → ε} {f : α → Except γ β} {x : α} {xs ys : List α}

@[simp] theorem mapLocated_nil : mapLocated report f [] = .ok [] := rfl

/-- The positions of a second part are those of its own, moved behind the first. -/
theorem mapLocated_append : mapLocated report f (xs ++ ys) = do
    let as ← mapLocated report f xs
    let bs ← mapLocated (fun i => report (xs.length + i)) f ys
    return as ++ bs := by
  unfold mapLocated
  rw [List.zipIdx_append, List.mapM_append, Nat.zero_add, List.zipIdx_eq_map_add (l := ys),
    List.mapM_map]
  rfl

theorem mapLocated_cons_error {c : γ} (hx : f x = .error c) :
    mapLocated report f (x :: xs) = .error (report 0 c) := by
  unfold mapLocated
  rw [List.zipIdx_cons, List.mapM_cons]
  simp [hx, Except.mapError, bind, Except.bind]

theorem mapLocated_cons_ok {b : β} (hx : f x = .ok b) : mapLocated report f (x :: xs) =
    (mapLocated (fun i => report (1 + i)) f xs).map (b :: ·) := by
  have hhead : mapLocated report f [x] = .ok [b] := by
    unfold mapLocated
    rw [List.zipIdx_cons, List.mapM_cons]
    simp [hx, Except.mapError, bind, Except.bind, pure, Except.pure]
  have happend : mapLocated report f ([x] ++ xs) = _ := mapLocated_append
  rw [hhead] at happend
  exact happend

theorem mapLocated_eq_ok_iff {bs : List β} :
    mapLocated report f xs = .ok bs ↔ List.Forall₂ (fun x b => f x = .ok b) xs bs := by
  induction xs generalizing report bs with
  | nil => cases bs <;> simp
  | cons x xs ih =>
    cases hx : f x with
    | error c => cases bs <;> simp [mapLocated_cons_error hx, hx]
    | ok b =>
      have htail := fun bs => @ih (fun i => report (1 + i)) bs
      rw [mapLocated_cons_ok hx]
      cases hxs : mapLocated (fun i => report (1 + i)) f xs with
      | error e => cases bs <;> simp [Except.map, hx, ← htail, hxs]
      | ok tail => cases bs <;> simp [Except.map, hx, ← htail, hxs]

theorem mapLocated_map : mapLocated report id (xs.map f) = mapLocated report f xs := by
  unfold mapLocated
  rw [List.zipIdx_map, List.mapM_map]
  rfl

theorem exists_mapLocated_eq_ok (h : ∀ x ∈ xs, ∃ b, f x = .ok b) :
    ∃ bs, mapLocated report f xs = .ok bs := by
  induction xs generalizing report with
  | nil => exact ⟨[], rfl⟩
  | cons x xs ih =>
    obtain ⟨b, hb⟩ := h x List.mem_cons_self
    obtain ⟨bs, hbs⟩ := @ih (fun i => report (1 + i)) fun y hy => h y (List.mem_cons_of_mem x hy)
    refine ⟨b :: bs, ?_⟩
    rw [mapLocated_cons_ok hb, hbs]
    rfl

/-- The element at position `i` is the first that is complained of. -/
structure FirstError (f : α → Except γ β) (xs : List α) (i : Nat) (x : α) (c : γ) : Prop where
  element : xs[i]? = some x
  error : f x = .error c
  before : ∀ j u, j < i → xs[j]? = some u → ∃ b, f u = .ok b

/-- What follows the first complaint is not looked at. -/
theorem FirstError.mapLocated_eq {i : Nat} {c : γ} (h : FirstError f xs i x c) :
    mapLocated report f xs = .error (report i c) := by
  obtain ⟨hx, hbad, hbefore⟩ := h
  induction xs generalizing report i with
  | nil => simp at hx
  | cons y ys ih =>
    cases i with
    | zero =>
      obtain rfl : y = x := by simpa using hx
      exact mapLocated_cons_error hbad
    | succ i =>
      obtain ⟨b, hb⟩ := hbefore 0 y (Nat.succ_pos i) rfl
      have htail : mapLocated (fun i => report (1 + i)) f ys = .error (report (1 + i) c) := by
        apply ih hx
        intro j u hj hu
        exact hbefore (j + 1) u (Nat.succ_lt_succ hj) hu
      rw [mapLocated_cons_ok hb, htail, Nat.add_comm i 1]
      rfl

theorem exists_firstError (h : ¬∀ x ∈ xs, ∃ b, f x = .ok b) :
    ∃ (i : Nat) (x : α) (c : γ), FirstError f xs i x c := by
  induction xs with
  | nil => simp at h
  | cons y ys ih =>
    cases hy : f y with
    | error c =>
      refine ⟨0, y, c, rfl, hy, ?_⟩
      intro j u hj
      exact absurd hj (Nat.not_lt_zero j)
    | ok b =>
      have htail : ¬∀ x ∈ ys, ∃ b, f x = .ok b := by
        intro hall
        apply h
        intro x hx
        rcases List.mem_cons.mp hx with rfl | hx
        · exact ⟨b, hy⟩
        · exact hall x hx
      obtain ⟨i, x, c, hx, hbad, hbefore⟩ := ih htail
      refine ⟨i + 1, x, c, hx, hbad, ?_⟩
      intro j u hj hu
      cases j with
      | zero =>
        obtain rfl : y = u := by simpa using hu
        exact ⟨b, hy⟩
      | succ j => exact hbefore j u (Nat.lt_of_succ_lt_succ hj) hu

theorem exists_firstError_of_mapLocated {e : ε} (h : mapLocated report f xs = .error e) :
    ∃ (i : Nat) (x : α) (c : γ), FirstError f xs i x c ∧ e = report i c := by
  have hsome : ¬∀ x ∈ xs, ∃ b, f x = .ok b := by
    intro hall
    have hok : ∃ bs, mapLocated report f xs = .ok bs := exists_mapLocated_eq_ok hall
    obtain ⟨bs, hbs⟩ := hok
    rw [hbs] at h
    cases h
  obtain ⟨i, x, c, hfirst⟩ := exists_firstError hsome
  refine ⟨i, x, c, hfirst, ?_⟩
  rw [hfirst.mapLocated_eq] at h
  exact (Except.error.inj h).symm

end Located

end BinomialLogit
