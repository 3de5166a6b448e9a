import BinomialLogit.Proofs.Binary64.Sparse
import BinomialLogit.Proofs.Mean
import BinomialLogit.Proofs.StartingMeans

/-! When the starting mean of a proportion is rounded to one. The numerator falls half a trial short
of the denominator; from 2^52 trials on the spacing of the doubles is greater than that, and it
depends on the digits of the weight whether the two are still told apart. -/

namespace BinomialLogit
set_option autoImplicit false
open Binary64

/-- The responses and weights whose starting mean rounds to one: a response of one with the last
half before 2^52 trials, with an odd number of trials from there to 2^53 or with a multiple of four
beyond, and the response next to one with 2^53 trials. -/
inductive RoundsToOne : ℚ → ℚ → Prop
  | half : RoundsToOne 1 (2 ^ 52 - 1 / 2)
  | odd (n : ℕ) (hlow : 2 ^ 52 ≤ n) (hhigh : n < 2 ^ 53) (hodd : n % 2 = 1) : RoundsToOne 1 n
  | fourfold (n : ℕ) (hlow : 2 ^ 51 ≤ n) : RoundsToOne 1 (4 * n)
  | below : RoundsToOne (1 - 1 / 2 ^ 53) (2 ^ 53)

namespace RoundsToOne
variable {v w : ℚ}

theorem response_ge (h : RoundsToOne v w) : 1 - 1 / 2 ^ 53 ≤ v := by
  cases h <;> norm_num

theorem weight_ge (h : RoundsToOne v w) : 2 ^ 52 - 1 / 2 ≤ w := by
  cases h with
  | half => exact le_rfl
  | odd n hlow hhigh hodd =>
    have hn : (2 ^ 52 : ℚ) ≤ n := by exact_mod_cast hlow
    linarith
  | fourfold n hlow =>
    have hn : (2 ^ 51 : ℚ) ≤ n := by exact_mod_cast hlow
    linarith
  | below => norm_num

end RoundsToOne

section Parts
variable {p q : ℚ} {a b : Binary64}

/-- Exact results with two values between them stay apart. -/
theorem value_lt_of_separated {c d : ℚ} (ha : Rounds p a) (hafin : a.IsFinite) (hb : Rounds q b)
    (hbfin : b.IsFinite) (hc : IsValue c) (hd : IsValue d) (hp : p ≤ c) (hcd : c < d)
    (hq : d ≤ q) : a.value < b.value :=
  calc a.value ≤ c := ha.value_le hafin hc hp
    _ < d := hcd
    _ ≤ b.value := hb.le_value hbfin hd hq

section Small
variable (hpq : p ≤ q) (ha : Rounds (p + 1 / 2) a) (hafin : a.IsFinite) (hb : Rounds (q + 1) b)
  (hbfin : b.IsFinite)
include hpq ha hafin hb hbfin

/-- The three quarters before 2^51, where the sums pass to the next spacing. -/
theorem numerator_lt_of_quarter {m : ℕ} (hq : q = m / 4) (hlow : 2 ^ 53 ≤ m + 3)
    (hhigh : m < 2 ^ 53) : a.value < b.value := by
  obtain rfl | rfl | rfl : m = 2 ^ 53 - 3 ∨ m = 2 ^ 53 - 2 ∨ m = 2 ^ 53 - 1 := by omega
  · apply value_lt_of_separated ha hafin hb hbfin (isValue_div_four (n := 2 ^ 53 - 1) (by norm_num))
      (isValue_div_two (n := 2 ^ 52) (by norm_num)) <;> norm_num at hq ⊢ <;> linarith
  · apply value_lt_of_separated ha hafin hb hbfin (isValue_div_two (n := 2 ^ 52) (by norm_num))
      (isValue_div_two (n := 2 ^ 52 + 1) (by norm_num)) <;> norm_num at hq ⊢ <;> linarith
  · have hle : a.value ≤ (2 ^ 52 + 1 : ℕ) / 2 :=
      ha.value_le hafin (isValue_div_two (by norm_num)) (by norm_num at hq ⊢; linarith)
    have hmiddle : q + 1 = ((2 ^ 52 + 1 : ℕ) + 1 / 2) * 2 ^ (-1 : ℤ) := by
      rw [hq]
      norm_num
    rw [hmiddle] at hb
    rw [hb.value_of_tie hbfin (by norm_num) (by norm_num) (by norm_num) (by norm_num)]
    norm_num at hle ⊢
    linarith

/-- Below 2^52 less a half the trial added stays ahead of the half success. -/
theorem numerator_lt_of_small (hp : 0 ≤ p) (hq : IsValue q) (hsmall : q < 2 ^ 52 - 1 / 2) :
    a.value < b.value := by
  rcases lt_or_ge q (2 ^ 51 - 3 / 4) with hlow | hhigh
  · have herror := (ha.relative_error (by rw [abs_of_nonneg (by linarith)]; linarith)
      (by rw [abs_of_nonneg (by linarith)]; linarith)).2
    have herror' := (hb.relative_error (by rw [abs_of_nonneg (by linarith)]; linarith)
      (by rw [abs_of_nonneg (by linarith)]; linarith)).2
    rw [abs_of_nonneg (by linarith : 0 ≤ p + 1 / 2)] at herror
    rw [abs_of_nonneg (by linarith : 0 ≤ q + 1)] at herror'
    have hup := (abs_le.mp herror).2
    have hdown := (abs_le.mp herror').1
    linarith
  rcases lt_or_ge q (2 ^ 51) with hlow | hhigh'
  · obtain ⟨m, hm⟩ := hq.exists_eq_div_four (by linarith)
    have hmin : (2 : ℚ) ^ 53 ≤ m + 3 := by linarith
    have hmax : (m : ℚ) < 2 ^ 53 := by linarith
    exact numerator_lt_of_quarter hpq ha hafin hb hbfin hm (by exact_mod_cast hmin)
      (by exact_mod_cast hmax)
  · obtain ⟨m, hm⟩ := hq.exists_eq_div_two hhigh'
    have hmax : (m : ℚ) + 1 < 2 ^ 53 := by linarith
    have hmax' : m + 1 < 2 ^ 53 := by exact_mod_cast hmax
    apply value_lt_of_separated ha hafin hb hbfin (isValue_div_two (n := m + 1) (by omega))
      (isValue_div_two (n := m + 2) (by omega)) <;> push_cast <;> linarith

end Small

/-- Among the whole numbers half a success makes a tie. -/
theorem value_of_add_half {n : ℕ} (h : Rounds (n + 1 / 2) a) (hfin : a.IsFinite)
    (hlow : 2 ^ 52 ≤ n) (hhigh : n < 2 ^ 53) : a.value = (n + n % 2 : ℕ) := by
  have hmiddle : (n : ℚ) + 1 / 2 = (n + 1 / 2) * 2 ^ (0 : ℤ) := by norm_num
  rw [hmiddle] at h
  rw [h.value_of_tie hfin (by norm_num) (by norm_num) hlow hhigh, zpow_zero, mul_one]

/-- Among the even numbers a trial makes one. -/
theorem value_of_add_one {n : ℕ} (h : Rounds (2 * n + 1) a) (hfin : a.IsFinite)
    (hlow : 2 ^ 52 ≤ n) (hhigh : n < 2 ^ 53) : a.value = 2 * (n + n % 2 : ℕ) := by
  have hmiddle : 2 * (n : ℚ) + 1 = (n + 1 / 2) * 2 ^ (1 : ℤ) := by
    rw [zpow_one]
    ring
  rw [hmiddle] at h
  rw [h.value_of_tie hfin (by norm_num) (by norm_num) hlow hhigh, zpow_one, mul_comm]

theorem value_of_add_half_large (hq : IsValue q) (hlow : 2 ^ 53 ≤ q) (h : Rounds (q + 1 / 2) a)
    (hfin : a.IsFinite) : a.value = q :=
  h.value_eq_of_close hfin hq (by linarith) (by linarith) (by linarith)

theorem value_of_add_one_large (hq : IsValue q) (hlow : 2 ^ 54 ≤ q) (h : Rounds (q + 1) a)
    (hfin : a.IsFinite) : a.value = q :=
  h.value_eq_of_close hfin hq (by linarith) (by linarith) (by linarith)

end Parts

/-- Large weights that leave room below one for the mean of a response of one. -/
theorem room_of_not_roundsToOne {w : ℚ} (hw : IsValue w) (hlarge : 2 ^ 52 - 1 / 2 ≤ w)
    (hround : ¬RoundsToOne 1 w) :
    (∃ n : ℕ, w = n ∧ 2 ^ 52 ≤ n ∧ n < 2 ^ 53 ∧ n % 2 = 0) ∨
      ∃ n : ℕ, w = 2 * n ∧ 2 ^ 52 ≤ n ∧ n < 2 ^ 53 ∧ n % 2 = 1 := by
  rcases lt_or_ge w (2 ^ 52) with hhalf | hwhole
  · obtain ⟨m, hm⟩ := hw.exists_eq_div_two (by linarith)
    have hmin : (2 : ℚ) ^ 53 ≤ m + 1 := by linarith
    have hmax : (m : ℚ) < 2 ^ 53 := by linarith
    have hmin' : 2 ^ 53 ≤ m + 1 := by exact_mod_cast hmin
    have hmax' : m < 2 ^ 53 := by exact_mod_cast hmax
    obtain rfl : m = 2 ^ 53 - 1 := by omega
    have hw' : w = 2 ^ 52 - 1 / 2 := by
      rw [hm]
      norm_num
    exact absurd (hw' ▸ .half) hround
  rcases lt_or_ge w (2 ^ 53) with hwhole' | hdouble
  · obtain ⟨n, rfl⟩ := hw.exists_eq_whole hwhole
    have hlow : 2 ^ 52 ≤ n := by exact_mod_cast hwhole
    have hhigh : n < 2 ^ 53 := by exact_mod_cast hwhole'
    have hmod : n % 2 ≠ 1 := fun hodd => hround (.odd n hlow hhigh hodd)
    exact .inl ⟨n, rfl, hlow, hhigh, by omega⟩
  rcases lt_or_ge w (2 ^ 54) with hdouble' | hfourfold
  · obtain ⟨n, hn⟩ := hw.exists_eq_mul (e := 1) (by norm_num) (by norm_num at hdouble ⊢; linarith)
    rw [zpow_one, mul_comm] at hn
    have hlow : (2 : ℚ) ^ 52 ≤ n := by linarith
    have hhigh : (n : ℚ) < 2 ^ 53 := by linarith
    have hlow' : 2 ^ 52 ≤ n := by exact_mod_cast hlow
    have hmod : n % 2 ≠ 0 := by
      intro hzero
      obtain ⟨k, rfl⟩ := Nat.dvd_of_mod_eq_zero hzero
      have hw' : w = 4 * k := by
        rw [hn]
        push_cast
        ring
      exact hround (hw' ▸ .fourfold k (by omega))
    exact .inr ⟨n, hn, hlow', by exact_mod_cast hhigh, by omega⟩
  · obtain ⟨n, hn⟩ := hw.exists_eq_mul (e := 2) (by norm_num) (by norm_num at hfourfold ⊢; linarith)
    rw [show (2 : ℚ) ^ (2 : ℤ) = 4 by norm_num, mul_comm] at hn
    have hlow : (2 : ℚ) ^ 51 ≤ n := by linarith
    exact absurd (hn ▸ .fourfold n (by exact_mod_cast hlow)) hround

namespace StartingParts
variable {v w : Binary64} (h : StartingParts v w)
include h

theorem successes_eq (hv : v.value = 1) : (w * v).value = w.value := by
  have hround := h.successes
  rw [hv, mul_one] at hround
  exact (hround.eq_of_isValue (isValue_value w)).2

theorem numerator_eq_of_roundsToOne (hround : RoundsToOne v.value w.value) :
    (w * v + 0.5).value = (w + 1).value := by
  have hall := h.successes_eq
  have hw := isValue_value w
  obtain ⟨hsuccesses, -, -, -, hnum, hnumfin, hden, hdenfin⟩ := h
  generalize w * v = s at *
  generalize v.value = response at *
  generalize w.value = weight at *
  cases hround with
  | half =>
    rw [hall rfl, sub_add_cancel] at hnum
    have hmiddle : (2 : ℚ) ^ 52 - 1 / 2 + 1 = (2 ^ 52 : ℕ) + 1 / 2 := by norm_num
    rw [hmiddle] at hden
    rw [(hnum.eq_of_isValue (isValue_two_pow (by norm_num))).2,
      value_of_add_half hden hdenfin le_rfl (by norm_num)]
    norm_num
  | odd n hlow hhigh hodd =>
    rw [hall rfl] at hnum
    rw [← Nat.cast_add_one] at hden
    rw [value_of_add_half hnum hnumfin hlow hhigh, hodd,
      (hden.eq_of_isValue (isValue_whole hhigh)).2]
  | fourfold n hlow =>
    rw [hall rfl] at hnum
    have hlow' : (2 ^ 51 : ℚ) ≤ n := by exact_mod_cast hlow
    rw [value_of_add_half_large hw (by linarith) hnum hnumfin]
    rcases lt_or_ge n (2 ^ 52) with hhigh | hhigh
    · have hdouble : (4 : ℚ) * n + 1 = 2 * (2 * n : ℕ) + 1 := by push_cast; ring
      rw [hdouble] at hden
      rw [value_of_add_one hden hdenfin (by omega) (by omega), Nat.mul_mod_right]
      push_cast
      ring
    · have hhigh' : (2 ^ 52 : ℚ) ≤ n := by exact_mod_cast hhigh
      rw [value_of_add_one_large hw (by linarith) hden hdenfin]
  | below =>
    have hless : (2 : ℚ) ^ 53 * (1 - 1 / 2 ^ 53) = (2 ^ 53 - 1 : ℕ) := by norm_num
    have htrial : (2 : ℚ) ^ 53 + 1 = 2 * (2 ^ 52 : ℕ) + 1 := by norm_num
    rw [hless] at hsuccesses
    rw [(hsuccesses.eq_of_isValue (isValue_natCast (by norm_num))).2] at hnum
    rw [htrial] at hden
    rw [value_of_add_half hnum hnumfin (by norm_num) (by norm_num),
      value_of_add_one hden hdenfin le_rfl (by norm_num)]
    norm_num

/-- With a response of one the weight alone decides. -/
theorem numerator_lt_of_eq_one (hv : v.value = 1) (hlarge : 2 ^ 52 - 1 / 2 ≤ w.value)
    (hround : ¬RoundsToOne 1 w.value) : (w * v + 0.5).value < (w + 1).value := by
  have hall := h.successes_eq hv
  have hw := isValue_value w
  obtain ⟨-, -, -, -, hnum, hnumfin, hden, hdenfin⟩ := h
  rw [hall] at hnum
  rcases room_of_not_roundsToOne hw hlarge hround with hwhole | hdouble
  · obtain ⟨n, hn, hlow, hhigh, heven⟩ := hwhole
    rw [hn] at hnum hden
    rw [value_of_add_half hnum hnumfin hlow hhigh, heven, Nat.add_zero]
    calc (n : ℚ) < (n + 1 : ℕ) := by push_cast; linarith
      _ ≤ (w + 1).value := hden.le_value hdenfin (isValue_whole hhigh) (by push_cast; rfl)
  · obtain ⟨n, hn, hlow, hhigh, hodd⟩ := hdouble
    rw [hn] at hw hnum hden
    have hlow' : (2 : ℚ) ^ 52 ≤ n := by exact_mod_cast hlow
    rw [value_of_add_half_large hw (by linarith) hnum hnumfin,
      value_of_add_one hden hdenfin hlow hhigh, hodd]
    push_cast
    linarith

/-- A response below one leaves a trial that is no success. -/
theorem successes_lt (hv : v.value < 1) (hv0 : 0 ≤ v.value) (hlarge : 1 ≤ w.value) :
    (w * v).value < w.value := by
  have hgap := (isValue_value v).le_sub_mul isValue_one hv0 hv
  have herror := (abs_le.mp (h.successes.abs_sub_le_max h.successes_finite)).2
  rw [abs_of_nonneg (mul_nonneg (by linarith) hv0)] at herror
  have hmissing : w.value ≤ (w.value - w.value * v.value) * 2 ^ 53 := by nlinarith
  have hmax : max (w.value * v.value / 2 ^ 53) (1 / 2 ^ (1075 : ℤ)) < w.value / 2 ^ 53 := by
    apply max_lt
    · exact div_lt_div_of_pos_right (by nlinarith) (by norm_num)
    · calc (1 : ℚ) / 2 ^ (1075 : ℤ) < 1 / 2 ^ 53 := Rounds.half_unit_lt (by norm_num)
        _ ≤ w.value / 2 ^ 53 := div_le_div_of_nonneg_right hlarge (by norm_num)
  linarith

/-- All trials but one of 2^53 are successes only if the response is the double before one. -/
theorem response_eq (hv : v.value < 1) (hw : w.value = 2 ^ 53)
    (hs : 2 ^ 53 - 1 ≤ (w * v).value) : v.value = 1 - 1 / 2 ^ 53 := by
  have hround := h.successes
  rw [hw] at hround
  rcases lt_or_ge v.value (1 / 2) with hsmall | hlarge
  · have hle := hround.value_le h.successes_finite (isValue_two_pow (n := 52) (by norm_num))
      (by linarith)
    linarith
  · obtain ⟨n, hn⟩ := (isValue_value v).exists_eq_mul (e := -53) (by norm_num)
      (by norm_num; linarith)
    norm_num at hn
    have hmax : (n : ℚ) < 2 ^ 53 := by linarith
    have hmax' : n < 2 ^ 53 := by exact_mod_cast hmax
    have hexact : (2 : ℚ) ^ 53 * v.value = n := by
      rw [hn]
      ring
    rw [hexact] at hround
    rw [(hround.eq_of_isValue (isValue_natCast hmax')).2] at hs
    have hmin : (2 : ℚ) ^ 53 ≤ n + 1 := by linarith
    have hmin' : 2 ^ 53 ≤ n + 1 := by exact_mod_cast hmin
    obtain rfl : n = 2 ^ 53 - 1 := by omega
    rw [hn]
    norm_num

/-- With a lesser response 2^53 trials are a tie if all but one are successes, and nothing else
is. -/
theorem numerator_lt_of_lt_one (hv : v.value < 1) (hv0 : 0 ≤ v.value)
    (hlarge : 2 ^ 52 - 1 / 2 ≤ w.value) (hround : ¬RoundsToOne v.value w.value) :
    (w * v + 0.5).value < (w + 1).value := by
  have hlt := h.successes_lt hv hv0 (by linarith)
  have hw := isValue_value w
  have hs := isValue_value (w * v)
  rcases lt_or_ge w.value (2 ^ 53) with hsmall | hlarge'
  · have hless : (w * v).value + 1 / 2 ≤ w.value := by
      rcases lt_or_ge (w * v).value (2 ^ 51) with hp | hp
      · linarith
      · have hgap := hs.add_spacing_le hw (e := -1) (by norm_num)
          (by norm_num at hp ⊢; linarith) hlt
        norm_num at hgap
        linarith
    have hnext : w.value < (w + 1).value := by
      rcases lt_or_ge w.value (2 ^ 52) with hhalf | hwhole
      · exact hhalf.trans_le (h.denominator.le_value h.denominator_finite
          (isValue_two_pow (by norm_num)) (by linarith))
      · obtain ⟨n, hn⟩ := hw.exists_eq_whole hwhole
        rw [hn] at hsmall
        have hn' : n < 2 ^ 53 := by exact_mod_cast hsmall
        calc w.value < (n + 1 : ℕ) := by rw [hn]; push_cast; linarith
          _ ≤ (w + 1).value := h.denominator.le_value h.denominator_finite (isValue_whole hn')
              (by rw [hn]; push_cast; rfl)
    exact (h.numerator.value_le h.numerator_finite hw hless).trans_lt hnext
  · have hgap := hs.le_sub_mul hw h.successes_nonneg hlt
    have hden := h.denominator.le_value h.denominator_finite hw (by linarith)
    rcases lt_or_ge 1 (w.value - (w * v).value) with hroom | htight
    · have hnear := h.numerator.abs_sub_le h.numerator_finite hs
      rw [sub_add_cancel_left, abs_neg, abs_of_pos (by norm_num : (0 : ℚ) < 1 / 2)] at hnear
      have hup := (abs_le.mp hnear).2
      linarith
    · have htop : w.value = 2 ^ 53 := by linarith
      have hresponse := h.response_eq hv htop (by linarith)
      rw [hresponse, htop] at hround
      exact absurd .below hround

theorem numerator_lt_iff (hv : InUnit v) :
    (w * v + 0.5).value < (w + 1).value ↔ ¬RoundsToOne v.value w.value := by
  obtain ⟨-, hv0, hv1⟩ := inUnit_iff.mp hv
  constructor
  · intro hlt hround
    exact hlt.ne (h.numerator_eq_of_roundsToOne hround)
  · intro hround
    rcases lt_or_ge w.value (2 ^ 52 - 1 / 2) with hsmall | hlarge
    · exact numerator_lt_of_small h.successes_le h.numerator h.numerator_finite h.denominator
        h.denominator_finite h.successes_nonneg (isValue_value w) hsmall
    rcases hv1.eq_or_lt with heq | hlt
    · exact h.numerator_lt_of_eq_one heq hlarge (heq ▸ hround)
    · exact h.numerator_lt_of_lt_one hlt hv0 hlarge hround

theorem interior_mean (hlt : (w * v + 0.5).value < (w + 1).value) :
    Interior (startingMeanAt v w) := by
  have hpos : 0 < (w + 1).value := lt_of_lt_of_le one_pos h.one_le_denominator
  have hlow : 1 / 2 ^ 1025 ≤ (w * v + 0.5).value / (w + 1).value := by
    rw [le_div_iff₀ hpos]
    calc (1 : ℚ) / 2 ^ 1025 * (w + 1).value ≤ 1 / 2 ^ 1025 * 2 ^ 1024 :=
          mul_le_mul_of_nonneg_left (w + 1).value_le_two_pow (by positivity)
      _ = 1 / 2 := by rw [pow_succ, one_div_mul_eq_div, div_mul_cancel_left₀ (by positivity), one_div]
      _ ≤ (w * v + 0.5).value := h.half_le_numerator
  have hhigh : (w * v + 0.5).value / (w + 1).value ≤ 1 - 1 / 2 ^ 53 := by
    have hgap := (isValue_value (w * v + 0.5)).le_sub_mul (isValue_value (w + 1))
      (by linarith [h.half_le_numerator]) hlt
    rw [div_le_iff₀ hpos]
    linarith
  obtain ⟨hfin, hge, hle⟩ := h.quotient.between (isValue_one_div_two_pow (by norm_num))
    (isValue_one_sub le_rfl) hlow hhigh
  exact ⟨hfin, lt_of_lt_of_le (by positivity) hge, lt_of_le_of_lt hle (by norm_num)⟩

theorem mean_eq_one (heq : (w * v + 0.5).value = (w + 1).value) : startingMeanAt v w = 1 := by
  have hone := h.one_le_denominator
  have hsame : w * v + 0.5 = w + 1 :=
    eq_of_value_eq h.numerator_finite h.denominator_finite heq (by linarith)
  unfold startingMeanAt
  rw [hsame]
  exact div_self_eq_one h.denominator_finite (by linarith)

end StartingParts

section Mean
variable {v w : Binary64} (hv : InUnit v) (hw : w.IsFinite) (h0 : 0 ≤ w)
include hv hw h0

theorem startingMeanAt_eq_one (hround : RoundsToOne v.value w.value) : startingMeanAt v w = 1 :=
  have h := startingParts hv hw (hw.nonneg_iff.mp h0)
  h.mean_eq_one (h.numerator_eq_of_roundsToOne hround)

theorem startingMeanAt_interior (hround : ¬RoundsToOne v.value w.value) :
    Interior (startingMeanAt v w) :=
  have h := startingParts hv hw (hw.nonneg_iff.mp h0)
  h.interior_mean ((h.numerator_lt_iff hv).mpr hround)

end Mean

end BinomialLogit
