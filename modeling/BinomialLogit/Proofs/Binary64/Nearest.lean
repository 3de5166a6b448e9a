import BinomialLogit.Binary64.Monotone
import Mathlib.Algebra.Order.Field.Basic
import Mathlib.Algebra.Order.Field.Rat
import Mathlib.Data.Nat.Cast.Order.Field
import Mathlib.Tactic.Linarith
import Mathlib.Tactic.NormNum
import Mathlib.Tactic.FieldSimp
import Mathlib.Tactic.Ring

/-! What rounding a quotient achieves: no representable magnitude is nearer, the error is at most
half a spacing, and the limit is not reached below the last middle. Representable magnitudes
themselves keep a distance of at least one part in 2^53. -/

namespace BinomialLogit.Binary64
set_option autoImplicit false

theorem abs_roundHalfEven_sub_le (num : Nat) {den : Nat} (hd : 0 < den) :
    |(roundHalfEven num den : ℚ) - num / den| ≤ 1 / 2 := by
  have hd' : (0 : ℚ) < den := by exact_mod_cast hd
  have hup : 2 * num ≤ (2 * roundHalfEven num den + 1) * den := by
    rcases (roundHalfEven_le_iff hd).mp (Nat.le_refl (roundHalfEven num den)) with h | h
    · exact Nat.le_of_lt h
    · exact Nat.le_of_eq h.1
  have hdown : 2 * roundHalfEven num den * den ≤ 2 * num + den := by
    by_contra hlt
    obtain ⟨k, hk⟩ : ∃ k, roundHalfEven num den = k + 1 := by
      apply Nat.exists_eq_succ_of_ne_zero
      intro h0
      simp [h0] at hlt
    rw [hk] at hlt
    have hle : roundHalfEven num den ≤ k := by
      apply (roundHalfEven_le_iff hd).mpr (.inl _)
      have : 2 * (k + 1) * den = (2 * k + 1) * den + den := by ring
      omega
    omega
  have hup' : (2 : ℚ) * num ≤ (2 * roundHalfEven num den + 1) * den := by exact_mod_cast hup
  have hdown' : (2 : ℚ) * roundHalfEven num den * den ≤ 2 * num + den := by
    exact_mod_cast hdown
  rw [abs_le]
  constructor
  · have : (num : ℚ) / den ≤ roundHalfEven num den + 1 / 2 := by
      rw [div_le_iff₀ hd']
      linarith
    linarith
  · have : (roundHalfEven num den : ℚ) - 1 / 2 ≤ num / den := by
      rw [le_div_iff₀ hd']
      linarith
    linarith

theorem granule_mul_sub (num n : Nat) {den : Nat} (hd : 0 < den) :
    ((granule (num / den) * n : Nat) : ℚ) - num / den =
      granule (num / den) * ((n : ℚ) - num / ((den * granule (num / den) : Nat) : ℚ)) := by
  have hg : (granule (num / den) : ℚ) ≠ 0 := by exact_mod_cast (granule_pos (num / den)).ne'
  have hd' : (den : ℚ) ≠ 0 := by exact_mod_cast hd.ne'
  push_cast
  field_simp

theorem one_le_abs_sub {m k : Nat} (h : m ≠ k) : (1 : ℚ) ≤ |(m : ℚ) - k| := by
  have hz : (1 : ℤ) ≤ |(m : ℤ) - k| := Int.one_le_abs (sub_ne_zero.mpr (by exact_mod_cast h))
  exact_mod_cast hz

theorem abs_nearestUnits_sub_le (num : Nat) {den : Nat} (hd : 0 < den) :
    |(nearestUnits num den : ℚ) - num / den| ≤ granule (num / den) / 2 := by
  have hg : (0 : ℚ) < granule (num / den) := by exact_mod_cast granule_pos (num / den)
  have h := abs_roundHalfEven_sub_le num (Nat.mul_pos hd (granule_pos (num / den)))
  unfold nearestUnits
  dsimp only
  rw [granule_mul_sub num _ hd, abs_mul, abs_of_pos hg]
  calc (granule (num / den) : ℚ) * _ ≤ granule (num / den) * (1 / 2) :=
        mul_le_mul_of_nonneg_left h hg.le
    _ = granule (num / den) / 2 := by ring

theorem granule_dvd_granule {u v : Nat} (h : u.log2 ≤ v.log2) : granule u ∣ granule v :=
  Nat.pow_dvd_pow 2 (by omega)

theorem granule_dvd_limit : granule limit ∣ limit := by
  obtain ⟨n, -, hl⟩ := limit_eq_two_pow
  rw [hl, granule, Nat.log2_two_pow]
  exact Nat.pow_dvd_pow 2 (Nat.sub_le n 52)

theorem log2_le_log2 {u v : Nat} (hu : u ≠ 0) (h : u ≤ v) : u.log2 ≤ v.log2 :=
  (Nat.le_log2 (by omega)).mpr (Nat.le_trans (Nat.log2_self_le hu) h)

private theorem nearestUnits_nearest_of_granule_dvd (num : Nat) {den v : Nat} (hd : 0 < den)
    (hv : granule (num / den) ∣ v) :
    |(nearestUnits num den : ℚ) - num / den| ≤ |(v : ℚ) - num / den| := by
  have herr := abs_nearestUnits_sub_le num hd
  obtain ⟨m, rfl⟩ := hv
  by_cases hm : m = roundHalfEven num (den * granule (num / den))
  · rw [hm]
    rfl
  · have hg : (0 : ℚ) < granule (num / den) := by exact_mod_cast granule_pos (num / den)
    have hstep : (granule (num / den) : ℚ) ≤
        |((granule (num / den) * m : Nat) : ℚ) - nearestUnits num den| := by
      have hone := one_le_abs_sub hm
      have hsplit : ((granule (num / den) * m : Nat) : ℚ) - nearestUnits num den =
          granule (num / den) * ((m : ℚ) - roundHalfEven num (den * granule (num / den))) := by
        unfold nearestUnits
        push_cast
        ring
      rw [hsplit, abs_mul, abs_of_pos hg]
      linarith [mul_le_mul_of_nonneg_left hone hg.le]
    have htri := abs_sub_le ((granule (num / den) * m : Nat) : ℚ) (num / den)
      (nearestUnits num den)
    rw [abs_sub_comm ((num : ℚ) / den)] at htri
    linarith

/-- Off the grid of the quotient lie only magnitudes below its power of two, which is on the grid:
they are farther than the rounded one. -/
theorem abs_nearestUnits_sub_lt (num : Nat) {den v : Nat} (hd : 0 < den) (hv : granule v ∣ v)
    (hdvd : ¬granule (num / den) ∣ v) :
    |(nearestUnits num den : ℚ) - num / den| < |(v : ℚ) - num / den| := by
  have hlog : v.log2 < (num / den).log2 := by
    by_contra hge
    exact hdvd (Nat.dvd_trans (granule_dvd_granule (Nat.le_of_not_lt hge)) hv)
  have hq : num / den ≠ 0 := by
    intro h0
    rw [h0, Nat.log2_zero] at hlog
    omega
  have hlt : v < 2 ^ (num / den).log2 :=
    Nat.lt_of_lt_of_le Nat.lt_log2_self (Nat.pow_le_pow_right (by decide) hlog)
  have hgrid : granule (num / den) ∣ 2 ^ (num / den).log2 := Nat.pow_dvd_pow 2 (by omega)
  have hpow : ((2 ^ (num / den).log2 : Nat) : ℚ) ≤ num / den := by
    calc ((2 ^ (num / den).log2 : Nat) : ℚ) ≤ (num / den : Nat) := by
          exact_mod_cast Nat.log2_self_le hq
      _ ≤ num / den := Nat.cast_div_le
  have hnear := nearestUnits_nearest_of_granule_dvd num hd hgrid
  have hlt' : (v : ℚ) < ((2 ^ (num / den).log2 : Nat) : ℚ) := by exact_mod_cast hlt
  rw [abs_of_nonpos (sub_nonpos.mpr hpow)] at hnear
  rw [abs_of_neg (a := (v : ℚ) - num / den) (by linarith)]
  linarith

/-- No representable magnitude is nearer to the quotient than the rounded one. -/
theorem nearestUnits_nearest (num : Nat) {den v : Nat} (hd : 0 < den) (hv : granule v ∣ v) :
    |(nearestUnits num den : ℚ) - num / den| ≤ |(v : ℚ) - num / den| := by
  by_cases hdvd : granule (num / den) ∣ v
  · exact nearestUnits_nearest_of_granule_dvd num hd hdvd
  · exact (abs_nearestUnits_sub_lt num hd hv hdvd).le

/-- The error in proportion to the quotient, or half a unit among the subnormal numbers. -/
theorem abs_nearestUnits_sub_le_max (num : Nat) {den : Nat} (hd : 0 < den) :
    |(nearestUnits num den : ℚ) - num / den| ≤ max ((num : ℚ) / den / 2 ^ 53) (1 / 2) := by
  refine le_trans (abs_nearestUnits_sub_le num hd) ?_
  rcases Nat.lt_or_ge (num / den).log2 52 with h | h
  · have hg : granule (num / den) = 1 := by
      unfold granule
      rw [show (num / den).log2 - 52 = 0 by omega, Nat.pow_zero]
    rw [hg, Nat.cast_one]
    exact le_max_right _ _
  · have hq : num / den ≠ 0 := by
      intro h0
      rw [h0, Nat.log2_zero] at h
      omega
    have hscale : granule (num / den) * 2 ^ 52 ≤ num / den := by
      unfold granule
      rw [← Nat.pow_add, show (num / den).log2 - 52 + 52 = (num / den).log2 by omega]
      exact Nat.log2_self_le hq
    have hscale' : (granule (num / den) : ℚ) * 2 ^ 52 ≤ num / den := by
      calc (granule (num / den) : ℚ) * 2 ^ 52 ≤ (num / den : Nat) := by exact_mod_cast hscale
        _ ≤ num / den := Nat.cast_div_le
    refine le_trans ?_ (le_max_left _ _)
    rw [le_div_iff₀ (by positivity)]
    linarith

/-- Below the limit, in the last binade, there are 2^53 spacings to the limit. -/
theorem granule_mul_of_log2 {v places : Nat} (hplaces : 54 ≤ places) (h : v.log2 = places - 1) :
    granule v * 2 ^ 53 = 2 ^ places := by
  rw [granule, h, ← Nat.pow_add, show places - 1 - 52 + 53 = places by omega]

/-- Below the middle between the greatest magnitude and the limit, rounding stays finite. -/
theorem nearestUnits_lt_limit {num den : Nat} (hd : 0 < den)
    (h : num * 2 ^ 54 < (2 ^ 54 - 1) * (limit * den)) : nearestUnits num den < limit := by
  obtain ⟨places, hplaces, hlimit⟩ := limit_eq_two_pow
  replace hplaces : 54 ≤ places := hplaces ▸ by decide
  have hnum : num < limit * den := by omega
  have hlog : (num / den).log2 < places := by
    rcases Nat.eq_zero_or_pos (num / den) with h0 | hpos
    · rw [h0, Nat.log2_zero]
      omega
    · rw [Nat.log2_lt (by omega), ← hlimit]
      exact (Nat.div_lt_iff_lt_mul hd).mpr hnum
  rcases Nat.lt_or_eq_of_le (Nat.le_sub_one_of_lt hlog) with hlt | heq
  · refine Nat.lt_of_le_of_lt (nearestUnits_le_two_pow hd hlt (by omega)) ?_
    rw [hlimit]
    exact Nat.pow_lt_pow_right (by decide) (by omega)
  · have hg : granule (num / den) * 2 ^ 53 = limit := by
      rw [granule_mul_of_log2 hplaces heq, hlimit]
    have hround : roundHalfEven num (den * granule (num / den)) ≤ 2 ^ 53 - 1 := by
      apply (roundHalfEven_le_iff (Nat.mul_pos hd (granule_pos _))).mpr (.inl _)
      rw [← hg, Nat.mul_right_comm, Nat.mul_comm _ den] at h
      omega
    unfold nearestUnits
    dsimp only
    calc granule (num / den) * roundHalfEven num (den * granule (num / den))
        < granule (num / den) * 2 ^ 53 := Nat.mul_lt_mul_of_pos_left (by omega) (granule_pos _)
      _ = limit := hg

/-- Of two representable magnitudes the greater exceeds the other by at least one part in 2^53 of
itself. -/
theorem le_sub_mul_two_pow {u v : Nat} (hu : granule u ∣ u) (hv : granule v ∣ v) (h : u < v) :
    v ≤ (v - u) * 2 ^ 53 := by
  rcases Nat.eq_zero_or_pos u with rfl | hpos
  · have : v * 1 ≤ v * 2 ^ 53 := Nat.mul_le_mul_left v (by decide)
    omega
  have hdvd : granule u ∣ v :=
    Nat.dvd_trans (granule_dvd_granule (log2_le_log2 (by omega) (Nat.le_of_lt h))) hv
  have hnext : u < 2 ^ (u.log2 + 1) := Nat.lt_log2_self
  have hgrid : granule u ∣ 2 ^ (u.log2 + 1) := Nat.pow_dvd_pow 2 (by omega)
  have hscale : 2 ^ (u.log2 + 1) ≤ granule u * 2 ^ 53 := by
    unfold granule
    rw [← Nat.pow_add]
    exact Nat.pow_le_pow_right (by decide) (by omega)
  have hstep {w : Nat} (hw : granule u ∣ w) (hlt : u < w) : granule u ≤ w - u :=
    Nat.le_of_dvd (by omega) (Nat.dvd_sub hw hu)
  rcases Nat.le_total v (2 ^ (u.log2 + 1)) with hle | hge
  · calc v ≤ granule u * 2 ^ 53 := Nat.le_trans hle hscale
      _ ≤ (v - u) * 2 ^ 53 := Nat.mul_le_mul_right _ (hstep hdvd h)
  · have hbelow : 2 ^ (u.log2 + 1) ≤ (2 ^ (u.log2 + 1) - u) * 2 ^ 53 :=
      Nat.le_trans hscale (Nat.mul_le_mul_right _ (hstep hgrid hnext))
    generalize 2 ^ (u.log2 + 1) = p at hnext hge hbelow
    omega

end BinomialLogit.Binary64
