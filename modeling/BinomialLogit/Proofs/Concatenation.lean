import BinomialLogit.Proofs.Rows

/-! Operations on two parts and on the whole of them. No row is looked at together with another:
results stand one after the other, counts on record add up, and a fault of the second part is
reported behind the first. -/

namespace BinomialLogit
set_option autoImplicit false
universe u v

/-- Outcomes on two parts and on the whole, where the first part has `before` elements. Faults are
reports of positions: one of the first part is the fault of the whole, one of the second is moved
behind the first. -/
structure Joined {F β : Type u} {γ : Type v} (report : Nat → γ → Fault F) (before : Nat)
    (first second whole : Except (Fault F) (List β)) : Prop where
  ok : ∀ xs ys, first = .ok xs → second = .ok ys → whole = .ok (xs ++ ys)
  first_error : ∀ e, first = .error e → whole = .error e
  second_error : ∀ xs e, first = .ok xs → second = .error e →
    (∃ i c, e = report i c) ∧ whole = .error (e.shift before)

def CountsAdd {F : Type u} (entry : Nat → Nat → Record) (m n : Nat)
    (first second whole : Answer F (List F)) : Prop :=
  ∃ k l xs ys, first = ⟨[entry k m], .ok xs⟩ ∧ second = ⟨[entry l n], .ok ys⟩ ∧
    whole = ⟨[entry (k + l) (m + n)], .ok (xs ++ ys)⟩

/-- Starting means of two parts and of the whole. A count of zero is not put on record, and
nothing is where the means are refused. -/
structure StartsJoined (m n : Nat) (first second whole : Answer Binary64 (List Binary64)) :
    Prop where
  outcome : Joined .responseOutside m first.outcome second.outcome whole.outcome
  log : ∀ xs ys, first.outcome = .ok xs → second.outcome = .ok ys →
    ∃ k l, first.log = fractionalLog k m ∧ second.log = fractionalLog l n ∧
      whole.log = fractionalLog (k + l) (m + n)
  log_error : ∀ e, whole.outcome = .error e → whole.log = []

section Outcomes
variable {F α β : Type u} {γ : Type v} {report : Nat → γ → Fault F} {before : Nat}

theorem joined_ok {xs ys : List β} : Joined report before (.ok xs) (.ok ys) (.ok (xs ++ ys)) := by
  constructor
  case ok =>
    intro xs' ys' hxs hys
    cases hxs
    cases hys
    rfl
  case first_error =>
    intro e h
    cases h
  case second_error =>
    intro xs' e _ h
    cases h

theorem joined_mapLocated (hshift : ∀ n i c, (report i c).shift n = report (n + i) c)
    (f : α → Except γ β) (xs ys : List α) :
    Joined report xs.length (mapLocated report f xs) (mapLocated report f ys)
      (mapLocated report f (xs ++ ys)) := by
  have happend : mapLocated report f (xs ++ ys) = _ := mapLocated_append
  constructor
  case ok =>
    intro as bs has hbs
    have hmoved : mapLocated (fun i => report (xs.length + i)) f ys = .ok bs :=
      mapLocated_eq_ok_iff.mpr (mapLocated_eq_ok_iff.mp hbs)
    rw [happend, has, hmoved]
    rfl
  case first_error =>
    intro e he
    rw [happend, he]
    rfl
  case second_error =>
    intro as e has he
    obtain ⟨i, x, c, hfirst, rfl⟩ := exists_firstError_of_mapLocated he
    refine ⟨⟨i, c, rfl⟩, ?_⟩
    rw [happend, has, hfirst.mapLocated_eq, hshift]
    rfl

end Outcomes

section Logit
variable {xs ys : List Binary64}

theorem Guards.saturatedCount_append (g : Guards Binary64) (xs ys : List Binary64) :
    g.saturatedCount (xs ++ ys) = g.saturatedCount xs + g.saturatedCount ys :=
  List.countP_append

theorem Logit.inverseLink_append (L : Logit Binary64) (hxs : xs ≠ []) (hys : ys ≠ []) :
    CountsAdd .saturated xs.length ys.length (L.inverseLink xs) (L.inverseLink ys)
      (L.inverseLink (xs ++ ys)) := by
  refine ⟨_, _, _, _, L.inverseLink_of_ne_nil hxs, L.inverseLink_of_ne_nil hys, ?_⟩
  rw [L.inverseLink_of_ne_nil (List.append_ne_nil_of_left_ne_nil hxs ys),
    L.guards.saturatedCount_append, List.length_append, List.map_append]

theorem Logit.meanDerivative_append (L : Logit Binary64) (hxs : xs ≠ []) (hys : ys ≠ []) :
    CountsAdd .floored xs.length ys.length (L.meanDerivative xs) (L.meanDerivative ys)
      (L.meanDerivative (xs ++ ys)) := by
  refine ⟨_, _, _, _, L.meanDerivative_of_ne_nil hxs, L.meanDerivative_of_ne_nil hys, ?_⟩
  rw [L.meanDerivative_of_ne_nil (List.append_ne_nil_of_left_ne_nil hxs ys),
    L.guards.saturatedCount_append, List.length_append, List.map_append]

theorem Logit.link_append (L : Logit Binary64) (hxs : xs ≠ []) (hys : ys ≠ []) :
    Joined .meanOutside xs.length (L.link xs) (L.link ys) (L.link (xs ++ ys)) := by
  rw [L.link_eq_mapLocated hxs, L.link_eq_mapLocated hys,
    L.link_eq_mapLocated (List.append_ne_nil_of_left_ne_nil hxs ys)]
  exact joined_mapLocated (fun _ _ _ => rfl) _ xs ys

theorem variance_append (hxs : xs ≠ []) (hys : ys ≠ []) : ∃ as bs, variance xs = .ok as ∧
    variance ys = .ok bs ∧ variance (xs ++ ys) = .ok (as ++ bs) := by
  refine ⟨_, _, variance_of_ne_nil hxs, variance_of_ne_nil hys, ?_⟩
  rw [variance_of_ne_nil (List.append_ne_nil_of_left_ne_nil hxs ys), List.map_append]

end Logit

section Rows

theorem Elementary.devianceResiduals_append (fns : Elementary Binary64)
    {y mu weights y' mu' weights' : List Binary64} (hmu : mu.length = y.length)
    (hweights : weights.length = y.length) (hmu' : mu'.length = y'.length)
    (hweights' : weights'.length = y'.length) :
    ∃ rs rs', fns.devianceResiduals y mu weights = .ok rs ∧
      fns.devianceResiduals y' mu' weights' = .ok rs' ∧
      fns.devianceResiduals (y ++ y') (mu ++ mu') (weights ++ weights') = .ok (rs ++ rs') := by
  have hmu'' : (mu ++ mu').length = (y ++ y').length := by simp [hmu, hmu']
  have hweights'' : (weights ++ weights').length = (y ++ y').length := by
    simp [hweights, hweights']
  have hrows : (mu.zip weights).length = y.length := by simp [hmu, hweights]
  refine ⟨_, _, fns.devianceResiduals_eq_ok (.inl hmu) (.inl hweights),
    fns.devianceResiduals_eq_ok (.inl hmu') (.inl hweights'), ?_⟩
  rw [fns.devianceResiduals_eq_ok (.inl hmu'') (.inl hweights''), expand_eq_self hmu,
    expand_eq_self hweights, expand_eq_self hmu', expand_eq_self hweights', expand_eq_self hmu'',
    expand_eq_self hweights'', List.zip_append (hmu.trans hweights.symm),
    List.zip_append hrows.symm, List.map_append]

theorem startingMeans_append {y weights y' weights' : List Binary64}
    (h : weights.length = y.length) (h' : weights'.length = y'.length) :
    StartsJoined y.length y'.length (startingMeans y weights) (startingMeans y' weights')
      (startingMeans (y ++ y') (weights ++ weights')) := by
  have hwhole : (weights ++ weights').length = (y ++ y').length := by simp [h, h']
  have hrows : (y.zip weights).length = y.length := by simp [h]
  have hzip : (y ++ y').zip (weights ++ weights') = y.zip weights ++ y'.zip weights' :=
    List.zip_append h.symm
  obtain ⟨hfirst, hlog, -⟩ := startingMeans_rows h
  obtain ⟨hsecond, hlog', -⟩ := startingMeans_rows h'
  obtain ⟨hmeans, hlog'', herror⟩ := startingMeans_rows hwhole
  have houtcome : Joined Fault.responseOutside _ _ _ _ :=
    joined_mapLocated (fun _ _ _ => rfl) startAt (y.zip weights) (y'.zip weights')
  rw [← hfirst, ← hsecond, ← hzip, ← hmeans, hrows] at houtcome
  constructor
  case outcome => exact houtcome
  case log =>
    intro xs ys hxs hys
    refine ⟨_, _, hlog ⟨xs, hxs⟩, hlog' ⟨ys, hys⟩, ?_⟩
    rw [hlog'' ⟨_, houtcome.ok xs ys hxs hys⟩, hzip, List.length_append]
    unfold fractionalCount
    rw [List.countP_append]
  case log_error => exact herror

end Rows

namespace Column

def append? : Column → Column → Option Column
  | double xs, double ys => some (double (xs ++ ys))
  | integer xs, integer ys => some (integer (xs ++ ys))
  | logical xs, logical ys => some (logical (xs ++ ys))
  | character xs, character ys => some (character (xs ++ ys))
  | _, _ => none

variable {first second whole : Column}

theorem storage_append (h : first.append? second = some whole) :
    second.storage = first.storage ∧ whole.storage = first.storage ∧
      whole.length = first.length + second.length := by
  unfold append? at h
  split at h <;> cases h <;> simp [storage, length]

theorem values_append (arg : String) (h : first.append? second = some whole) :
    Joined (.unreadable arg) first.length (first.values arg) (second.values arg)
      (whole.values arg) := by
  unfold append? at h
  split at h
  · cases h
    exact joined_ok
  · cases h
    simp only [values, List.map_append]
    exact joined_ok
  · cases h
    simp only [values, List.map_append]
    exact joined_ok
  · cases h
    exact joined_mapLocated (fun _ _ _ => rfl) readCell _ _
  · cases h

end Column

/-- What an operation says of two parts it says of the whole. -/
structure RowWise (L : Logit Binary64) : Prop where
  inverseLink : ∀ u v : List Binary64, u ≠ [] → v ≠ [] →
    CountsAdd .saturated u.length v.length (L.inverseLink u) (L.inverseLink v)
      (L.inverseLink (u ++ v))
  meanDerivative : ∀ u v : List Binary64, u ≠ [] → v ≠ [] →
    CountsAdd .floored u.length v.length (L.meanDerivative u) (L.meanDerivative v)
      (L.meanDerivative (u ++ v))
  variance : ∀ u v : List Binary64, u ≠ [] → v ≠ [] →
    ∃ xs ys, variance u = .ok xs ∧ variance v = .ok ys ∧ variance (u ++ v) = .ok (xs ++ ys)
  link : ∀ u v : List Binary64, u ≠ [] → v ≠ [] →
    Joined .meanOutside u.length (L.link u) (L.link v) (L.link (u ++ v))
  devianceResiduals : ∀ y mu weights y' mu' weights' : List Binary64, mu.length = y.length →
    weights.length = y.length → mu'.length = y'.length → weights'.length = y'.length →
    ∃ rs rs', L.devianceResiduals y mu weights = .ok rs ∧
      L.devianceResiduals y' mu' weights' = .ok rs' ∧
      L.devianceResiduals (y ++ y') (mu ++ mu') (weights ++ weights') = .ok (rs ++ rs')
  startingMeans : ∀ y weights y' weights' : List Binary64, weights.length = y.length →
    weights'.length = y'.length →
    StartsJoined y.length y'.length (startingMeans y weights) (startingMeans y' weights')
      (startingMeans (y ++ y') (weights ++ weights'))
  coerce : ∀ (arg : String) (first second whole : Column), first.append? second = some whole →
    Joined (.unreadable arg) first.length (first.coerce arg).outcome (second.coerce arg).outcome
      (whole.coerce arg).outcome
  coerce_log : ∀ (arg : String) (first second whole : Column),
    first.append? second = some whole →
    (first.coerce arg).log = Column.coercionLog arg first.storage first.length ∧
      (second.coerce arg).log = Column.coercionLog arg first.storage second.length ∧
      (whole.coerce arg).log =
        Column.coercionLog arg first.storage (first.length + second.length)

/-- Whatever the guards and the elementary functions are, no operation looks at two rows
together. -/
theorem logit_rowWise (L : Logit Binary64) : RowWise L := by
  constructor
  case inverseLink => exact fun _ _ hu hv => L.inverseLink_append hu hv
  case meanDerivative => exact fun _ _ hu hv => L.meanDerivative_append hu hv
  case variance => exact fun _ _ hu hv => variance_append hu hv
  case link => exact fun _ _ hu hv => L.link_append hu hv
  case devianceResiduals =>
    intro y mu weights y' mu' weights' hmu hweights hmu' hweights'
    exact L.devianceResiduals_append hmu hweights hmu' hweights'
  case startingMeans => exact fun _ _ _ _ h h' => startingMeans_append h h'
  case coerce =>
    intro arg first second whole h
    simp only [Column.coerce_eq]
    exact Column.values_append arg h
  case coerce_log =>
    intro arg first second whole h
    obtain ⟨hsecond, hstorage, hlength⟩ := Column.storage_append h
    simp only [Column.coerce_eq, hsecond, hstorage, hlength, and_self]

/-- A mean at fault in the second part alone. -/
theorem logit_rowWise_second_mean :
    Logit.standard.link [0.25, 2] = .error (.meanOutside 1 2) ∧
      Logit.standard.link [0.5, 0.25, 2] = .error (.meanOutside 2 2) := by
  have hinside : ∀ m ∈ [0.5, 0.25], ¬((m : Binary64) < 0 ∨ 1 < m) := by decide +kernel
  have hfirst : Logit.standard.link [0.5] = .ok [Logit.standard.ln (0.5 / (1 - 0.5))] := by
    rw [Logit.standard.link_eq_mapLocated (by decide), mapLocated_eq_ok_iff]
    exact .cons (Logit.standard.predictorAt_eq_ok (hinside 0.5 (by simp))) .nil
  have hsecond : Logit.standard.link [0.25, 2] = .error (.meanOutside 1 2) := by
    have hfault : FirstError Logit.standard.predictorAt [0.25, 2] 1 2 2 := by
      constructor
      case element => rfl
      case error => exact Logit.standard.predictorAt_eq_error (by decide +kernel)
      case before =>
        intro j u hj hu
        obtain rfl : j = 0 := by omega
        cases hu
        exact ⟨_, Logit.standard.predictorAt_eq_ok (hinside 0.25 (by simp))⟩
    rw [Logit.standard.link_eq_mapLocated (by decide), hfault.mapLocated_eq]
  have hjoined := (logit_rowWise .standard).link [0.5] [0.25, 2] (by decide) (by decide)
  exact ⟨hsecond, (hjoined.second_error _ _ hfirst hsecond).2⟩

end BinomialLogit
