import BinomialLogit.Answer

/-! What vector arguments must satisfy. An argument that goes with `n` observations has one element
for each of them, or a single element that serves for all. -/

namespace BinomialLogit
set_option autoImplicit false
universe u
variable {F : Type u}

def requireNonempty (arg : String) (xs : List F) : Except (Fault F) PUnit :=
  if xs = [] then .error (.empty arg) else .ok ⟨⟩

def requireLength (arg : String) (length expected : Nat) : Except (Fault F) PUnit :=
  if length = expected ∨ length = 1 then .ok ⟨⟩
  else .error (.lengthMismatch arg length expected)

/-- The element that goes with observation `i`; a single element goes with every one. -/
def recycledAt? (xs : List F) (i : Nat) : Option F :=
  match xs with
  | [x] => some x
  | _ => xs[i]?

def expand (n : Nat) : List F → List F
  | [x] => List.replicate n x
  | xs => xs

def recycle (arg : String) (n : Nat) (xs : List F) : Except (Fault F) (List F) := do
  requireLength arg xs.length n
  return expand n xs

/-- Responses are proportions; a NaN is not. The first offender is reported. -/
def requireResponses [OfNat F 0] [OfNat F 1] [LE F] [DecidableLE F] (y : List F) :
    Except (Fault F) PUnit :=
  match y.zipIdx.find? fun (v, _) => ¬(0 ≤ v ∧ v ≤ 1) with
  | some (v, i) => .error (.responseOutside i v)
  | none => .ok ⟨⟩

@[simp] theorem requireNonempty_nil (arg : String) :
    requireNonempty arg ([] : List F) = .error (.empty arg) := rfl

theorem requireNonempty_of_ne_nil {arg : String} {xs : List F} (h : xs ≠ []) :
    requireNonempty arg xs = .ok ⟨⟩ := if_neg h

theorem requireLength_eq_ok_iff {arg : String} {length expected : Nat} :
    (requireLength arg length expected : Except (Fault F) PUnit) = .ok ⟨⟩ ↔
      length = expected ∨ length = 1 := by
  unfold requireLength
  split <;> simp_all

theorem recycle_eq_ok_iff {arg : String} {n : Nat} {xs ys : List F} :
    recycle arg n xs = .ok ys ↔ (xs.length = n ∨ xs.length = 1) ∧ ys = expand n xs := by
  unfold recycle requireLength
  split
  · rename_i h
    exact ⟨fun he => ⟨h, (Except.ok.inj he).symm⟩, fun he => congrArg Except.ok he.2.symm⟩
  · rename_i h
    exact ⟨nofun, fun he => absurd he.1 h⟩

theorem requireResponses_eq_ok_iff [OfNat F 0] [OfNat F 1] [LE F] [DecidableLE F] {y : List F} :
    requireResponses y = .ok ⟨⟩ ↔ ∀ v ∈ y, 0 ≤ v ∧ v ≤ 1 := by
  unfold requireResponses
  split
  · rename_i v i h
    have hv := List.find?_some h
    have hmem := List.fst_mem_of_mem_zipIdx (List.mem_of_find?_eq_some h)
    refine ⟨nofun, fun hall => ?_⟩
    simp [hall v hmem] at hv
  · rename_i h
    rw [List.find?_eq_none] at h
    refine ⟨fun _ v hv => ?_, fun _ => rfl⟩
    obtain ⟨i, hi⟩ := List.mem_iff_getElem?.mp hv
    simpa using h (v, i) (List.mk_mem_zipIdx_iff_getElem?.mpr hi)

theorem length_expand {n : Nat} {xs : List F} (h : xs.length = n ∨ xs.length = 1) :
    (expand n xs).length = n := by
  unfold expand
  split
  · exact List.length_replicate
  · rename_i hne
    rcases h with h | h
    · exact h
    · obtain ⟨x, rfl⟩ := List.length_eq_one_iff.mp h
      exact absurd rfl (hne x)

theorem mem_of_mem_expand {n : Nat} {xs : List F} {x : F} (h : x ∈ expand n xs) : x ∈ xs := by
  unfold expand at h
  split at h
  · exact List.mem_singleton.mpr (List.eq_of_mem_replicate h)
  · exact h

theorem getElem?_expand {n i : Nat} {xs : List F} (hi : i < n) :
    (expand n xs)[i]? = recycledAt? xs i := by
  unfold expand recycledAt?
  split <;> simp_all

end BinomialLogit
