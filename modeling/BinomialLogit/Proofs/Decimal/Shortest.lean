import BinomialLogit.Decimal.Shortest
import BinomialLogit.Proofs.Decimal.Value
import Mathlib.Data.List.DropRight

/-! The decimal that is written for a double. It is found on the coarsest grid of powers of ten on
which any decimal reads back, and no decimal of this grid that does is nearer. That makes it one of
fewest digits, and of those the nearest: numbers that read back as one double differ by a factor
less than ten, and where one of them is a power of ten, the next finer grid has nothing nearer. -/

namespace BinomialLogit.Decimal
set_option autoImplicit false
open Binary64

def units (d : Decimal) : ℕ := nearestUnits d.numerator d.denominator

/-- Digits from the first to the last that is not zero; the number zero has none. -/
def significant (d : Decimal) : ℕ := ((Nat.toDigits 10 d.digits).rdropWhile (· = '0')).length

section Units
variable {d d' e : Decimal} {s : Bool} {u : ℕ}

theorem toBinary64_eq_finite_iff {h : Representable u} :
    d.toBinary64 = finite s u h ↔ d.negative = s ∧ d.units = u := by
  rw [toBinary64_eq]
  unfold ofQuotient units
  split
  · simp
  · rename_i hge
    constructor
    · intro hinf
      cases hinf
    · rintro ⟨-, rfl⟩
      exact absurd h.1 hge

theorem units_mono (h : d.magnitude ≤ d'.magnitude) : d.units ≤ d'.units := by
  apply nearestUnits_mono d.denominator_pos d'.denominator_pos
  have hden : (0 : ℚ) < d.denominator := by exact_mod_cast d.denominator_pos
  have hden' : (0 : ℚ) < d'.denominator := by exact_mod_cast d'.denominator_pos
  have hquot : (d.numerator : ℚ) / d.denominator ≤ d'.numerator / d'.denominator := by
    rw [numerator_div_denominator, numerator_div_denominator]
    exact mul_le_mul_of_nonneg_right h unitsInOne_pos.le
  rw [div_le_div_iff₀ hden hden'] at hquot
  exact_mod_cast hquot

theorem units_eq_of_magnitude_eq (h : d.magnitude = d'.magnitude) : d.units = d'.units :=
  Nat.le_antisymm (units_mono h.le) (units_mono h.ge)

theorem toBinary64_congr (hs : d.negative = d'.negative) (h : d.magnitude = d'.magnitude) :
    d.toBinary64 = d'.toBinary64 := by
  have hunits := units_eq_of_magnitude_eq h
  unfold units at hunits
  rw [toBinary64_eq, toBinary64_eq, hs]
  unfold ofQuotient
  simp only [hunits]

/-- What lies between two numbers that are rounded alike is rounded like them. -/
theorem units_eq_of_between (hd : d.units = u) (hd' : d'.units = u) (hle : d.magnitude ≤ e.magnitude)
    (hge : e.magnitude ≤ d'.magnitude) : e.units = u :=
  Nat.le_antisymm (hd' ▸ units_mono hge) (hd ▸ units_mono hle)

theorem abs_units_sub_le (d : Decimal) :
    |(d.units : ℚ) - d.magnitude * unitsInOne| ≤
      max (d.magnitude * unitsInOne / 2 ^ 53) (1 / 2) := by
  rw [← numerator_div_denominator]
  exact abs_nearestUnits_sub_le_max d.numerator d.denominator_pos

/-- A number that is not rounded to zero is off by half of what it is rounded to at most. -/
theorem magnitude_between (h : d.units = u) (hu : u ≠ 0) :
    (u : ℚ) / 2 ≤ d.magnitude * unitsInOne ∧ d.magnitude * unitsInOne ≤ 3 / 2 * u := by
  have herror := d.abs_units_sub_le
  rw [h, abs_le] at herror
  have hone : (1 : ℚ) ≤ u := by exact_mod_cast Nat.one_le_iff_ne_zero.mpr hu
  rcases max_cases (d.magnitude * unitsInOne / 2 ^ 53) (1 / 2) with ⟨hmax, -⟩ | ⟨hmax, -⟩
  · rw [hmax] at herror
    norm_num at herror
    constructor <;> linarith
  · rw [hmax] at herror
    constructor <;> linarith

theorem magnitude_lt_ten_mul (h : d.units = u) (h' : d'.units = u) (hu : u ≠ 0) :
    d'.magnitude < 10 * d.magnitude := by
  have hone : (1 : ℚ) ≤ u := by exact_mod_cast Nat.one_le_iff_ne_zero.mpr hu
  have hlow := (magnitude_between h hu).1
  have hhigh := (magnitude_between h' hu).2
  have hU := unitsInOne_pos
  apply lt_of_mul_lt_mul_right _ hU.le
  linarith

theorem digits_ne_zero (h : d.units = u) (hu : u ≠ 0) : d.digits ≠ 0 := by
  intro h0
  have hone : (1 : ℚ) ≤ u := by exact_mod_cast Nat.one_le_iff_ne_zero.mpr hu
  have hlow := (magnitude_between h hu).1
  rw [magnitude, h0, Nat.cast_zero, zero_mul, zero_mul] at hlow
  linarith

end Units

section Grids
variable {d e : Decimal} {u n k : ℕ}

def distance (u : ℕ) (d : Decimal) : ℚ := |d.magnitude - u / unitsInOne|

/-- Decimals that are rounded to `u` units have no greater exponent than `d`, which is one of them,
and with its exponent none of them is nearer. -/
structure OnCoarsestGrid (u : ℕ) (d : Decimal) : Prop where
  reads : d.units = u
  coarsest : ∀ e : Decimal, e.units = u → e.exponent ≤ d.exponent
  nearest : ∀ e : Decimal, e.units = u → e.exponent = d.exponent → distance u d ≤ distance u e

def multiple (n k : ℕ) : Decimal := ⟨false, n, k - 1074⟩

theorem exactDigits_mul (u : ℕ) : (exactDigits u : ℚ) * 10 ^ (-1074 : ℤ) = u / unitsInOne := by
  obtain ⟨n, hn, hdigits⟩ := exactDigits_eq u
  have hz : (1074 : ℤ) = n := by omega
  rw [hdigits, unitsInOne_eq, hz, zpow_neg, zpow_natCast, zpow_natCast, Nat.cast_mul, Nat.cast_pow,
    Nat.cast_ofNat, show (10 : ℚ) = 2 * 5 by norm_num, mul_pow]
  field_simp

theorem magnitude_multiple (n k : ℕ) :
    (multiple n k).magnitude = ((n * 10 ^ k : ℕ) : ℚ) * 10 ^ (-1074 : ℤ) := by
  rw [magnitude, multiple, sub_eq_add_neg, zpow_add₀ (by norm_num), zpow_natCast,
    Nat.cast_mul, Nat.cast_pow, Nat.cast_ofNat, mul_assoc]

theorem magnitude_multiple_le {m j : ℕ} (h : n * 10 ^ k ≤ m * 10 ^ j) :
    (multiple n k).magnitude ≤ (multiple m j).magnitude := by
  rw [magnitude_multiple, magnitude_multiple]
  exact mul_le_mul_of_nonneg_right (by exact_mod_cast h) (ten_zpow_pos _).le

theorem magnitude_eq_multiple (h : e.exponent = k - 1074) :
    e.magnitude = (multiple e.digits k).magnitude := by
  rw [magnitude, magnitude, h, multiple]

theorem distance_multiple (u n k : ℕ) : distance u (multiple n k) =
    |((n * 10 ^ k : ℕ) : ℚ) - exactDigits u| * 10 ^ (-1074 : ℤ) := by
  rw [distance, magnitude_multiple, ← exactDigits_mul, ← sub_mul, abs_mul,
    abs_of_pos (ten_zpow_pos _)]

theorem distance_multiple_le {m : ℕ} (h : |((n * 10 ^ k : ℕ) : ℚ) - exactDigits u| ≤
    |((m * 10 ^ k : ℕ) : ℚ) - exactDigits u|) :
    distance u (multiple n k) ≤ distance u (multiple m k) := by
  rw [distance_multiple, distance_multiple]
  exact mul_le_mul_of_nonneg_right h (ten_zpow_pos _).le

theorem magnitude_exact (u : ℕ) : (multiple (exactDigits u) 0).magnitude = u / unitsInOne := by
  rw [magnitude_multiple, Nat.pow_zero, Nat.mul_one, exactDigits_mul]

theorem units_exact (h : granule u ∣ u) : (multiple (exactDigits u) 0).units = u := by
  have hquot := magnitude_exact u
  generalize multiple (exactDigits u) 0 = d at hquot ⊢
  have hden : (d.denominator : ℚ) ≠ 0 := by exact_mod_cast d.denominator_pos.ne'
  have hnum := d.numerator_div_denominator
  rw [hquot, div_mul_cancel₀ _ unitsInOne_pos.ne', div_eq_iff hden] at hnum
  have hnum' : d.numerator = u * d.denominator := by exact_mod_cast hnum
  apply Nat.le_antisymm
  · calc d.units ≤ nearestUnits u 1 :=
          nearestUnits_mono d.denominator_pos Nat.one_pos (by omega)
      _ = u := nearestUnits_one h
  · calc u = nearestUnits u 1 := (nearestUnits_one h).symm
      _ ≤ d.units := nearestUnits_mono Nat.one_pos d.denominator_pos (by omega)

theorem neighbours_cases (u k : ℕ) :
    (neighbours u k = [multiple (exactDigits u / 10 ^ k) k, multiple (exactDigits u / 10 ^ k + 1) k] ∧
      2 * (exactDigits u % 10 ^ k) < 10 ^ k) ∨
    (neighbours u k = [multiple (exactDigits u / 10 ^ k + 1) k, multiple (exactDigits u / 10 ^ k) k] ∧
      10 ^ k ≤ 2 * (exactDigits u % 10 ^ k)) := by
  unfold neighbours multiple
  dsimp only
  split
  · rename_i h
    exact .inl ⟨rfl, h⟩
  · rename_i h
    exact .inr ⟨rfl, Nat.le_of_not_lt h⟩

/-- The exact digits lie between the neighbours. -/
theorem exactDigits_between (u k : ℕ) :
    exactDigits u / 10 ^ k * 10 ^ k + exactDigits u % 10 ^ k = exactDigits u ∧
      exactDigits u % 10 ^ k < 10 ^ k :=
  ⟨Nat.div_add_mod' _ _, Nat.mod_lt _ (Nat.pow_pos (by norm_num))⟩

theorem neighbours_sorted (u k : ℕ) :
    (neighbours u k).Pairwise fun a b => distance u a ≤ distance u b := by
  obtain ⟨hsum, hlt⟩ := exactDigits_between u k
  have hsum' : (exactDigits u : ℚ) =
      ((exactDigits u / 10 ^ k * 10 ^ k : ℕ) : ℚ) + (exactDigits u % 10 ^ k : ℕ) := by
    exact_mod_cast hsum.symm
  have hstep : (((exactDigits u / 10 ^ k + 1) * 10 ^ k : ℕ) : ℚ) =
      ((exactDigits u / 10 ^ k * 10 ^ k : ℕ) : ℚ) + (10 ^ k : ℕ) := by
    push_cast
    ring
  have hlt' : ((exactDigits u % 10 ^ k : ℕ) : ℚ) < (10 ^ k : ℕ) := by exact_mod_cast hlt
  have hlower : |((exactDigits u / 10 ^ k * 10 ^ k : ℕ) : ℚ) - exactDigits u| =
      (exactDigits u % 10 ^ k : ℕ) := by
    rw [abs_sub_comm, hsum', add_sub_cancel_left, abs_of_nonneg (Nat.cast_nonneg _)]
  have hupper : |(((exactDigits u / 10 ^ k + 1) * 10 ^ k : ℕ) : ℚ) - exactDigits u| =
      (10 ^ k : ℕ) - (exactDigits u % 10 ^ k : ℕ) := by
    rw [hstep, hsum', add_sub_add_left_eq_sub, abs_of_pos (sub_pos.mpr hlt')]
  rcases neighbours_cases u k with ⟨hlist, hhalf⟩ | ⟨hlist, hhalf⟩
  · have hhalf' : (2 : ℚ) * (exactDigits u % 10 ^ k : ℕ) < (10 ^ k : ℕ) := by exact_mod_cast hhalf
    rw [hlist, List.pairwise_pair]
    apply distance_multiple_le
    rw [hlower, hupper]
    linarith
  · have hhalf' : ((10 ^ k : ℕ) : ℚ) ≤ 2 * (exactDigits u % 10 ^ k : ℕ) := by exact_mod_cast hhalf
    rw [hlist, List.pairwise_pair]
    apply distance_multiple_le
    rw [hlower, hupper]
    linarith

/-- A multiple between the magnitude and one that reads back reads back too, and is as near. -/
theorem multiple_of_between {m : ℕ} (hu : granule u ∣ u) (hm : (multiple m k).units = u)
    (h : exactDigits u ≤ n * 10 ^ k ∧ n * 10 ^ k ≤ m * 10 ^ k ∨
      m * 10 ^ k ≤ n * 10 ^ k ∧ n * 10 ^ k ≤ exactDigits u) :
    (multiple n k).units = u ∧ distance u (multiple n k) ≤ distance u (multiple m k) := by
  have hexact := units_exact hu
  rcases h with ⟨hlow, hhigh⟩ | ⟨hlow, hhigh⟩
  · constructor
    · exact units_eq_of_between hexact hm (magnitude_multiple_le (by omega))
        (magnitude_multiple_le hhigh)
    · have hlow' : (exactDigits u : ℚ) ≤ (n * 10 ^ k : ℕ) := by exact_mod_cast hlow
      have hhigh' : ((n * 10 ^ k : ℕ) : ℚ) ≤ (m * 10 ^ k : ℕ) := by exact_mod_cast hhigh
      apply distance_multiple_le
      rw [abs_of_nonneg (by linarith), abs_of_nonneg (by linarith)]
      linarith
  · constructor
    · exact units_eq_of_between hm hexact (magnitude_multiple_le hlow)
        (magnitude_multiple_le (by omega))
    · have hlow' : ((m * 10 ^ k : ℕ) : ℚ) ≤ (n * 10 ^ k : ℕ) := by exact_mod_cast hlow
      have hhigh' : ((n * 10 ^ k : ℕ) : ℚ) ≤ exactDigits u := by exact_mod_cast hhigh
      apply distance_multiple_le
      rw [abs_of_nonpos (by linarith), abs_of_nonpos (by linarith)]
      linarith

theorem multiple_mem_neighbours {m : ℕ}
    (h : m = exactDigits u / 10 ^ k ∨ m = exactDigits u / 10 ^ k + 1) :
    multiple m k ∈ neighbours u k := by
  rcases neighbours_cases u k with ⟨hlist, -⟩ | ⟨hlist, -⟩
  · rw [hlist]
    rcases h with rfl | rfl <;> simp
  · rw [hlist]
    rcases h with rfl | rfl <;> simp

/-- Of the decimals on a grid that read back, a neighbour is one, and as near as any: the one on
the same side of the magnitude. -/
theorem exists_neighbour (hu : granule u ∣ u) (he : e.units = u) (hk : e.exponent = k - 1074) :
    ∃ d ∈ neighbours u k, d.units = u ∧ distance u d ≤ distance u e := by
  obtain ⟨hsum, hlt⟩ := exactDigits_between u k
  have hmag : e.magnitude = (multiple e.digits k).magnitude := magnitude_eq_multiple hk
  have hdist : distance u e = distance u (multiple e.digits k) := by rw [distance, hmag, distance]
  have hm : (multiple e.digits k).units = u := (units_eq_of_magnitude_eq hmag).symm.trans he
  rw [hdist]
  rcases Nat.lt_or_ge (exactDigits u / 10 ^ k) e.digits with hside | hside
  · have hle : (exactDigits u / 10 ^ k + 1) * 10 ^ k ≤ e.digits * 10 ^ k :=
      Nat.mul_le_mul_right _ hside
    have habove : exactDigits u ≤ (exactDigits u / 10 ^ k + 1) * 10 ^ k := by
      rw [Nat.add_mul, Nat.one_mul]
      omega
    exact ⟨_, multiple_mem_neighbours (.inr rfl), multiple_of_between hu hm (.inl ⟨habove, hle⟩)⟩
  · have hle : e.digits * 10 ^ k ≤ exactDigits u / 10 ^ k * 10 ^ k := Nat.mul_le_mul_right _ hside
    have hbelow : exactDigits u / 10 ^ k * 10 ^ k ≤ exactDigits u := by omega
    exact ⟨_, multiple_mem_neighbours (.inl rfl), multiple_of_between hu hm (.inr ⟨hle, hbelow⟩)⟩

theorem exponent_of_mem_neighbours (h : d ∈ neighbours u k) :
    d.exponent = k - 1074 ∧ d.negative = false := by
  rcases neighbours_cases u k with ⟨hlist, -⟩ | ⟨hlist, -⟩
  · rw [hlist, List.mem_pair] at h
    rcases h with rfl | rfl <;> exact ⟨rfl, rfl⟩
  · rw [hlist, List.mem_pair] at h
    rcases h with rfl | rfl <;> exact ⟨rfl, rfl⟩

/-- The first neighbour that reads back is as near as any that does. -/
theorem distance_le_of_find? {p : Decimal → Bool} (h : (neighbours u k).find? p = some d)
    (he : e ∈ neighbours u k) (hpe : p e = true) : distance u d ≤ distance u e := by
  obtain ⟨-, before, after, hlist, hbefore⟩ := List.find?_eq_some_iff_append.mp h
  have hsorted := neighbours_sorted u k
  rw [hlist] at hsorted he
  rcases List.mem_append.mp he with he | he
  · have := hbefore e he
    simp [hpe] at this
  · rcases List.mem_cons.mp he with rfl | he
    · exact le_rfl
    · have htail := (List.pairwise_append.mp hsorted).2.1
      exact (List.pairwise_cons.mp htail).1 e he

theorem shortestFrom_onCoarsestGrid {h : Representable u}
    (hcoarse : ∀ e : Decimal, e.units = u → e.exponent ≤ k - 1074) :
    OnCoarsestGrid u (shortestFrom u (finite false u h) k) := by
  induction k with
  | zero =>
    have hexact : shortestFrom u (finite false u h) 0 = multiple (exactDigits u) 0 := rfl
    rw [hexact]
    constructor
    case reads => exact units_exact h.2
    case coarsest => exact hcoarse
    case nearest =>
      intro e _ _
      rw [distance, magnitude_exact, sub_self, abs_zero]
      exact abs_nonneg _
  | succ k ih =>
    have htarget {b : Decimal} (hb : b ∈ neighbours u (k + 1)) :
        b.toBinary64 = finite false u h ↔ b.units = u := by
      rw [toBinary64_eq_finite_iff, and_iff_right (exponent_of_mem_neighbours hb).2]
    rw [shortestFrom]
    cases hfound : (neighbours u (k + 1)).find? (·.toBinary64 = finite false u h) with
    | some d =>
      have hmem := List.mem_of_find?_eq_some hfound
      obtain ⟨hexp, -⟩ := exponent_of_mem_neighbours hmem
      rw [Option.getD_some]
      constructor
      case reads => exact (htarget hmem).mp (toBinary64_of_mem_find hfound)
      case coarsest =>
        intro e he
        rw [hexp]
        exact hcoarse e he
      case nearest =>
        intro e he hsame
        obtain ⟨b, hb, hunits, hnear⟩ := exists_neighbour h.2 he (hsame.trans hexp)
        have hreads := decide_eq_true ((htarget hb).mpr hunits)
        exact (distance_le_of_find? hfound hb hreads).trans hnear
    | none =>
      rw [Option.getD_none]
      apply ih
      intro e he
      have hle := hcoarse e he
      by_contra hgt
      have hexp : e.exponent = (k + 1 : ℕ) - 1074 := by omega
      obtain ⟨b, hb, hunits, -⟩ := exists_neighbour h.2 he hexp
      rw [List.find?_eq_none] at hfound
      exact hfound b hb (decide_eq_true ((htarget hb).mpr hunits))

/-- Above the coarsest grid that is tried the steps exceed ten times the magnitude. -/
theorem exponent_le_coarsest (hu : u ≠ 0) (h : granule u ∣ u) (he : e.units = u) :
    e.exponent ≤ coarsest u - 1074 := by
  by_contra hgt
  have hdigits := digits_ne_zero he hu
  have hlt := magnitude_lt_ten_mul (units_exact h) he hu
  have hbound : exactDigits u ≤ 10 ^ coarsest u := by
    calc exactDigits u ≤ 2 ^ ((exactDigits u).log2 + 1) := Nat.le_of_lt Nat.lt_log2_self
      _ ≤ 2 ^ (93 * ((exactDigits u).log2 / 93 + 1)) :=
          Nat.pow_le_pow_right (by norm_num) (by omega)
      _ = (2 ^ 93) ^ ((exactDigits u).log2 / 93 + 1) := Nat.pow_mul ..
      _ ≤ (10 ^ 28) ^ ((exactDigits u).log2 / 93 + 1) := Nat.pow_le_pow_left (by norm_num) _
      _ = 10 ^ coarsest u := (Nat.pow_mul ..).symm
  have hstep : 10 * (multiple (exactDigits u) 0).magnitude ≤ e.magnitude := by
    rw [magnitude_multiple, Nat.pow_zero, Nat.mul_one]
    calc 10 * ((exactDigits u : ℚ) * 10 ^ (-1074 : ℤ)) ≤
          10 * (((10 ^ coarsest u : ℕ) : ℚ) * 10 ^ (-1074 : ℤ)) := by
            have hbound' : (exactDigits u : ℚ) ≤ ((10 ^ coarsest u : ℕ) : ℚ) := by
              exact_mod_cast hbound
            have ht := ten_zpow_pos (-1074)
            generalize (10 : ℚ) ^ (-1074 : ℤ) = t at ht ⊢
            gcongr
      _ = 10 ^ (coarsest u - 1074 + 1 : ℤ) := by
            rw [zpow_add_one₀ (by norm_num), sub_eq_add_neg, zpow_add₀ (by norm_num), zpow_natCast,
              Nat.cast_pow, Nat.cast_ofNat, mul_comm]
      _ ≤ 10 ^ e.exponent := zpow_le_zpow_right₀ (by norm_num) (by omega)
      _ ≤ e.magnitude := by
            have hone : (1 : ℚ) ≤ e.digits := by
              exact_mod_cast Nat.one_le_iff_ne_zero.mpr hdigits
            exact le_mul_of_one_le_left (ten_zpow_pos _).le hone
  linarith

end Grids

section Digits
variable {d e : Decimal} {u : ℕ}

theorem exists_last_digit {n : ℕ} (h : n % 10 ≠ 0) :
    ∃ before last, Nat.toDigits 10 n = before ++ [last] ∧ last ≠ '0' := by
  rcases Nat.lt_or_ge n 10 with hlt | hge
  · refine ⟨[], n.digitChar, Nat.toDigits_of_lt_base hlt, ?_⟩
    rw [Ne, Nat.digitChar_eq_zero]
    omega
  · exact ⟨_, _, Nat.toDigits_of_base_le (by norm_num) hge, by rwa [Ne, Nat.digitChar_eq_zero]⟩

theorem rdropWhile_toDigits_mul_ten (n : ℕ) :
    (Nat.toDigits 10 (n * 10)).rdropWhile (· = '0') =
      (Nat.toDigits 10 n).rdropWhile (· = '0') := by
  rcases Nat.eq_zero_or_pos n with rfl | hpos
  · rfl
  · have hsplit : Nat.toDigits 10 (n * 10) = Nat.toDigits 10 n ++ ['0'] := by
      rw [Nat.toDigits_of_base_le (by norm_num) (by omega), Nat.mul_div_cancel n (by norm_num),
        Nat.mul_mod_left]
      rfl
    rw [hsplit]
    exact List.rdropWhile_concat_pos _ _ _ rfl

theorem exists_significant {n : ℕ} (hn : n ≠ 0) : ∃ m zeros : ℕ, n = m * 10 ^ zeros ∧ m ≠ 0 ∧
    (Nat.toDigits 10 n).rdropWhile (· = '0') = Nat.toDigits 10 m := by
  induction n using Nat.strongRecOn with
  | ind n ih =>
    by_cases hlast : n % 10 = 0
    · obtain ⟨k, rfl⟩ := Nat.dvd_of_mod_eq_zero hlast
      obtain ⟨m, zeros, rfl, hne, hdigits⟩ := ih k (by omega) (by omega)
      refine ⟨m, zeros + 1, by ring, hne, ?_⟩
      rw [Nat.mul_comm, rdropWhile_toDigits_mul_ten, hdigits]
    · refine ⟨n, 0, by omega, hn, ?_⟩
      obtain ⟨before, last, hdigits, hne⟩ := exists_last_digit hlast
      rw [hdigits]
      exact List.rdropWhile_concat_neg _ _ _ (by rwa [decide_eq_true_iff])

/-- The same number on the grid of its last significant digit. -/
structure Reduced (d e : Decimal) : Prop where
  magnitude_eq : e.magnitude = d.magnitude
  exponent_le : d.exponent ≤ e.exponent
  lower : 10 ^ (d.significant - 1) ≤ e.digits
  upper : e.digits < 10 ^ d.significant
  significant_pos : 0 < d.significant

theorem exists_reduced (hd : d.digits ≠ 0) : ∃ e, Reduced d e := by
  obtain ⟨m, zeros, hm, hne, hdigits⟩ := exists_significant hd
  have hlength : d.significant = (Nat.toDigits 10 m).length := by rw [significant, hdigits]
  have hpos : 0 < d.significant := hlength ▸ Nat.length_toDigits_pos
  refine ⟨⟨d.negative, m, d.exponent + zeros⟩, ?_, ?_, ?_, ?_, hpos⟩
  · rw [magnitude, magnitude, hm, zpow_add₀ (by norm_num), zpow_natCast]
    push_cast
    ring
  · change d.exponent ≤ d.exponent + zeros
    omega
  · change 10 ^ (d.significant - 1) ≤ m
    by_contra hlt
    rw [not_le] at hlt
    rcases Nat.eq_zero_or_pos (d.significant - 1) with h0 | h0
    · rw [h0, Nat.pow_zero] at hlt
      omega
    · have := (Nat.length_toDigits_le_iff (by norm_num) h0).mpr hlt
      omega
  · exact (Nat.length_toDigits_le_iff (by norm_num) hpos).mp hlength.ge

def powerOfTen (j : ℤ) : Decimal := ⟨false, 1, j⟩

theorem magnitude_powerOfTen (j : ℤ) : (powerOfTen j).magnitude = 10 ^ j := by
  rw [magnitude, powerOfTen, Nat.cast_one, one_mul]

theorem Reduced.magnitude_lt (h : Reduced d e) :
    d.magnitude < 10 ^ (d.significant + e.exponent) := by
  have hupper : (e.digits : ℚ) < 10 ^ d.significant := by exact_mod_cast h.upper
  rw [← h.magnitude_eq, magnitude, zpow_add₀ (by norm_num), zpow_natCast]
  exact mul_lt_mul_of_pos_right hupper (ten_zpow_pos _)

theorem Reduced.le_magnitude (h : Reduced d e) :
    10 ^ (d.significant - 1 + e.exponent) ≤ d.magnitude := by
  have hlower : (10 : ℚ) ^ (d.significant - 1) ≤ e.digits := by exact_mod_cast h.lower
  have hexp : (d.significant : ℤ) - 1 = (d.significant - 1 : ℕ) := by
    have := h.significant_pos
    omega
  rw [← h.magnitude_eq, magnitude, zpow_add₀ (by norm_num), hexp, zpow_natCast]
  exact mul_le_mul_of_nonneg_right hlower (ten_zpow_pos _).le

theorem Reduced.units_eq (h : Reduced d e) (hd : d.units = u) : e.units = u :=
  (units_eq_of_magnitude_eq h.magnitude_eq).trans hd

theorem unitsInOne_between : 20 * 10 ^ 322 ≤ unitsInOne ∧ unitsInOne ≤ 21 * 10 ^ 322 := by
  obtain ⟨places, hplaces, hunits⟩ := unitsInOne_eq_two_pow
  rw [hunits, hplaces]
  decide +kernel

/-- A power of ten in units is well below one, or about a fifth, or well above one. -/
theorem ten_zpow_mul_unitsInOne_cases (j : ℤ) : (10 : ℚ) ^ j * unitsInOne ≤ 1 / 20 ∨
    1 / 5 ≤ (10 : ℚ) ^ j * unitsInOne ∧ (10 : ℚ) ^ j * unitsInOne ≤ 21 / 100 ∨
    2 ≤ (10 : ℚ) ^ j * unitsInOne := by
  obtain ⟨hlow, hhigh⟩ := unitsInOne_between
  have hlow' : 20 * (10 : ℚ) ^ (322 : ℤ) ≤ unitsInOne := by exact_mod_cast hlow
  have hhigh' : (unitsInOne : ℚ) ≤ 21 * 10 ^ (322 : ℤ) := by exact_mod_cast hhigh
  have hbelow (a : ℤ) (h : j ≤ a) :
      (10 : ℚ) ^ j * unitsInOne ≤ 21 * 10 ^ (a + 322) := by
    calc (10 : ℚ) ^ j * unitsInOne ≤ 10 ^ a * (21 * 10 ^ (322 : ℤ)) :=
          mul_le_mul (zpow_le_zpow_right₀ (by norm_num) h) hhigh' unitsInOne_pos.le
            (ten_zpow_pos a).le
      _ = 21 * 10 ^ (a + 322) := by rw [zpow_add₀ (by norm_num)]; ring
  have habove (a : ℤ) (h : a ≤ j) :
      20 * 10 ^ (a + 322) ≤ (10 : ℚ) ^ j * unitsInOne := by
    calc 20 * (10 : ℚ) ^ (a + 322) = 10 ^ a * (20 * 10 ^ (322 : ℤ)) := by
          rw [zpow_add₀ (by norm_num)]; ring
      _ ≤ 10 ^ j * unitsInOne :=
          mul_le_mul (zpow_le_zpow_right₀ (by norm_num) h) hlow'
            (mul_nonneg (by norm_num) (ten_zpow_pos _).le) (ten_zpow_pos j).le
  rcases lt_trichotomy j (-324) with h | h | h
  · have := hbelow (-325) (by omega)
    norm_num at this
    exact .inl (by linarith)
  · have hle := hbelow (-324) h.le
    have hge := habove (-324) h.ge
    norm_num at hle hge
    exact .inr (.inl ⟨by linarith, by linarith⟩)
  · have := habove (-323) (by omega)
    norm_num at this
    exact .inr (.inr (by linarith))

/-- Nine tenths of a power of ten and the power itself are read as one double only at 10^-323, and
then the double is nearer to the power. -/
theorem nineteen_mul_le {j : ℤ} (hnine : (⟨false, 9, j⟩ : Decimal).units = u)
    (hten : (powerOfTen (j + 1)).units = u) (hu : u ≠ 0) :
    19 * (10 : ℚ) ^ j ≤ 2 * (u / unitsInOne) := by
  have hone : (1 : ℚ) ≤ u := by exact_mod_cast Nat.one_le_iff_ne_zero.mpr hu
  have hnear := abs_units_sub_le (⟨false, 9, j⟩ : Decimal)
  have hnear' := abs_units_sub_le (powerOfTen (j + 1))
  rw [hnine, magnitude, Nat.cast_ofNat, mul_assoc] at hnear
  rw [hten, magnitude_powerOfTen, zpow_add_one₀ (by norm_num), mul_right_comm] at hnear'
  have hcases := ten_zpow_mul_unitsInOne_cases j
  have hpos : 0 < (10 : ℚ) ^ j * unitsInOne := mul_pos (ten_zpow_pos j) unitsInOne_pos
  rw [← mul_div_assoc, le_div_iff₀ unitsInOne_pos, mul_assoc]
  generalize (10 : ℚ) ^ j * unitsInOne = t at *
  replace hnear := (abs_le.mp (hnear.trans (max_le_add_of_nonneg (by positivity) (by norm_num)))).2
  replace hnear' :=
    (abs_le.mp (hnear'.trans (max_le_add_of_nonneg (by positivity) (by norm_num)))).1
  norm_num at hnear hnear'
  rcases hcases with hsmall | ⟨hlow, hhigh⟩ | hlarge
  · linarith
  · have htwo : 2 ≤ u := by
      by_contra hlt
      have : (u : ℚ) ≤ 1 := by exact_mod_cast Nat.le_of_lt_succ (Nat.not_le.mp hlt)
      linarith
    have htwo' : (2 : ℚ) ≤ u := by exact_mod_cast htwo
    linarith
  · linarith

/-- On the grid of a power of ten that reads back, one place finer, nothing is nearer to the units
than the power. -/
theorem distance_powerOfTen_le {j : ℤ} (hten : (powerOfTen j).units = u) (hu : u ≠ 0)
    (he : e.units = u) (hexp : e.exponent = j - 1) (hdigits : e.digits < 10) :
    distance u (powerOfTen j) ≤ distance u e := by
  have hpower : (10 : ℚ) ^ j = 10 * 10 ^ (j - 1) := by
    rw [zpow_sub_one₀ (by norm_num)]
    field_simp
  have ht := ten_zpow_pos (j - 1)
  have hnine : (e.digits : ℚ) ≤ 9 := by exact_mod_cast Nat.le_of_lt_succ hdigits
  have hmag : e.magnitude ≤ 9 * 10 ^ (j - 1) := by
    rw [magnitude, hexp]
    exact mul_le_mul_of_nonneg_right hnine ht.le
  have hunits : (⟨false, 9, j - 1⟩ : Decimal).units = u := by
    apply units_eq_of_between he hten
    · exact hmag
    · rw [magnitude_powerOfTen, hpower, magnitude, Nat.cast_ofNat]
      linarith
  have hmiddle := nineteen_mul_le hunits (by rwa [sub_add_cancel]) hu
  rw [distance, distance, magnitude_powerOfTen, hpower, abs_le]
  have hfar : |e.magnitude - u / unitsInOne| = u / unitsInOne - e.magnitude := by
    rw [abs_sub_comm, abs_of_nonneg (by linarith)]
  rw [hfar]
  constructor <;> linarith

/-- No decimal that reads back has fewer digits, and none with as many is nearer. -/
theorem OnCoarsestGrid.significant_le (h : OnCoarsestGrid u d) (hu : u ≠ 0) (he : e.units = u) :
    d.significant ≤ e.significant ∧
      (e.significant = d.significant → distance u d ≤ distance u e) := by
  obtain ⟨r, hr⟩ := exists_reduced (digits_ne_zero h.reads hu)
  obtain ⟨s, hs⟩ := exists_reduced (digits_ne_zero he hu)
  have hsu : s.units = u := hs.units_eq he
  have hdist : distance u s = distance u e := by rw [distance, hs.magnitude_eq, distance]
  have hrexp : r.exponent = d.exponent :=
    le_antisymm (h.coarsest r (hr.units_eq h.reads)) hr.exponent_le
  have hsexp : s.exponent ≤ d.exponent := h.coarsest s hsu
  have hlow := hr.le_magnitude
  have hhigh := hs.magnitude_lt
  have hdpos := hr.significant_pos
  rw [hrexp] at hlow
  rw [← hdist]
  -- By where the power of ten above the other decimal lies: below, at or above the one below `d`.
  rcases lt_trichotomy (e.significant + s.exponent) (d.significant - 1 + d.exponent) with
    hless | hsame | hmore
  · have hfactor := magnitude_lt_ten_mul he h.reads hu
    have hgap : (10 : ℚ) * 10 ^ (e.significant + s.exponent) ≤
        10 ^ (d.significant - 1 + d.exponent) := by
      rw [mul_comm, ← zpow_add_one₀ (by norm_num)]
      exact zpow_le_zpow_right₀ (by norm_num) (by omega)
    linarith
  · rw [← hsame] at hlow
    have hten : (powerOfTen (e.significant + s.exponent)).units = u := by
      apply units_eq_of_between he h.reads
      · rw [magnitude_powerOfTen]
        exact hhigh.le
      · rw [magnitude_powerOfTen]
        exact hlow
    have hpower : e.significant + s.exponent ≤ d.exponent := h.coarsest _ hten
    have hepos := hs.significant_pos
    refine ⟨by omega, ?_⟩
    intro hequal
    have hj : e.significant + s.exponent = d.exponent := by omega
    have hdigits := hs.upper
    rw [show e.significant = 1 by omega, Nat.pow_one] at hdigits
    rw [hj] at hten
    calc distance u d ≤ distance u (powerOfTen d.exponent) := h.nearest _ hten rfl
      _ ≤ distance u s := distance_powerOfTen_le hten hu hsu (by omega) hdigits
  · refine ⟨by omega, ?_⟩
    intro hequal
    exact h.nearest s hsu (by omega)

theorem OnCoarsestGrid.last_digit_ne_zero (h : OnCoarsestGrid u d) :
    d.digits % 10 ≠ 0 := by
  intro hlast
  have hsame : (⟨false, d.digits / 10, d.exponent + 1⟩ : Decimal).magnitude = d.magnitude := by
    have hdigits : (d.digits : ℚ) = (d.digits / 10 : ℕ) * 10 := by
      exact_mod_cast (Nat.div_mul_cancel (Nat.dvd_of_mod_eq_zero hlast)).symm
    rw [magnitude, magnitude, zpow_add_one₀ (by norm_num), hdigits]
    ring
  have hle := h.coarsest _ ((units_eq_of_magnitude_eq hsame).trans h.reads)
  exact absurd hle (not_le.mpr (Int.lt_succ d.exponent))

end Digits

/-- The decimal reads back as the double; no decimal that does has fewer significant digits, and
none with as many is nearer. -/
structure IsShortest (d : Decimal) (x : Binary64) : Prop where
  reads : d.toBinary64 = x
  fewest : ∀ e : Decimal, e.toBinary64 = x → d.significant ≤ e.significant
  nearest : ∀ e : Decimal, e.toBinary64 = x → e.significant = d.significant →
    |d.value - x.value| ≤ |e.value - x.value|

section Shortest
variable {d : Decimal} {s : Bool} {u : ℕ} {h : Representable u}

theorem abs_value_sub (hd : d.negative = s) :
    |d.value - (finite s u h).value| = distance u d := by
  cases s with
  | false =>
    rw [value_of_not_negative d hd, value_finite, signed_false, Int.cast_natCast, distance]
  | true =>
    rw [value_of_negative d hd, value_finite, signed_true, Int.cast_neg, Int.cast_natCast, neg_div,
      ← neg_add', abs_neg, distance, sub_eq_add_neg]

theorem OnCoarsestGrid.setSign (h : OnCoarsestGrid u d) (s : Bool) :
    OnCoarsestGrid u { d with negative := s } :=
  ⟨h.reads, h.coarsest, h.nearest⟩

theorem shortest_onCoarsestGrid (s : Bool) (hu : u ≠ 0) : OnCoarsestGrid u (shortest s u h) := by
  have hscan : OnCoarsestGrid u (shortestFrom u (finite false u h) (coarsest u)) :=
    shortestFrom_onCoarsestGrid fun e he => exponent_le_coarsest hu h.2 he
  rw [shortest, if_neg hu]
  exact hscan.setSign s

theorem negative_shortest (s : Bool) (h : Representable u) : (shortest s u h).negative = s := by
  unfold shortest
  split <;> rfl

theorem isShortest_shortest (s : Bool) (h : Representable u) :
    IsShortest (shortest s u h) (finite s u h) := by
  by_cases hu : u = 0
  · subst hu
    have hzero : shortest s 0 h = ⟨s, 0, 0⟩ := if_pos rfl
    rw [hzero]
    constructor
    case reads => exact if_pos (.inl rfl)
    case fewest =>
      intro e _
      have hnone : (⟨s, 0, 0⟩ : Decimal).significant = 0 := by
        simp [significant, List.rdropWhile]
      rw [hnone]
      exact Nat.zero_le _
    case nearest =>
      intro e _ _
      have hvalue : (⟨s, 0, 0⟩ : Decimal).value - (finite s 0 h).value = 0 := by
        cases s <;> simp [value, value_finite]
      rw [hvalue, abs_zero]
      exact abs_nonneg _
  · have hgrid : OnCoarsestGrid u (shortest s u h) := shortest_onCoarsestGrid s hu
    constructor
    case reads => exact toBinary64_eq_finite_iff.mpr ⟨negative_shortest s h, hgrid.reads⟩
    case fewest =>
      intro e he
      exact (hgrid.significant_le hu (toBinary64_eq_finite_iff.mp he).2).1
    case nearest =>
      intro e he hdigits
      obtain ⟨hsign, hunits⟩ := toBinary64_eq_finite_iff.mp he
      rw [abs_value_sub (negative_shortest s h), abs_value_sub hsign]
      exact (hgrid.significant_le hu hunits).2 hdigits

end Shortest

end BinomialLogit.Decimal
