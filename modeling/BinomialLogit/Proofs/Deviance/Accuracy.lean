import BinomialLogit.Proofs.Deviance.Divergence
import BinomialLogit.Proofs.Deviance.Logarithm
import BinomialLogit.Proofs.Deviance.Terms

/-! Deviance residuals with an accurate logarithm. Five roundings go into a half: of its two arguments,
of their quotient, of the logarithm and of the product. All are small against the half itself or
against its argument, also where the quotient or the product is subnormal. -/

namespace BinomialLogit
set_option autoImplicit false
open Binary64

section Logarithm
variable {x y ε η : ℝ}

theorem abs_log_le (hε : ε ≤ 1 / 9) (h : |x - 1| ≤ ε) : |Real.log x| ≤ 9 / 8 * ε := by
  obtain ⟨hlow, hhigh⟩ := abs_le.mp h
  have hε0 : 0 ≤ ε := (abs_nonneg _).trans h
  have hx : 0 < x := by linarith
  have hupper := Real.log_le_sub_one_of_pos hx
  have hlower := Real.one_sub_inv_le_log_of_pos hx
  have hinv : x⁻¹ ≤ 1 + 9 / 8 * ε := by
    rw [inv_le_iff_one_le_mul₀ hx]
    nlinarith
  rw [abs_le]
  constructor <;> linarith

/-- A small relative error is a small error of the logarithm. -/
theorem abs_log_sub_log_le (hx : 0 < x) (hε : ε ≤ 1 / 9) (h : |y - x| ≤ x * ε) :
    |Real.log y - Real.log x| ≤ 9 / 8 * ε := by
  have hratio : |y / x - 1| ≤ ε := by
    rw [div_sub_one hx.ne', abs_div, abs_of_pos hx, div_le_iff₀ hx, mul_comm]
    exact h
  have hy : 0 < y := by
    have hlow := (abs_le.mp h).1
    nlinarith
  rw [← Real.log_div hy.ne' hx.ne']
  exact abs_log_le hε hratio

theorem mul_log_div_le {a : ℝ} (ha : 0 < a) (hx : a ≤ x) (hy : 0 < y) (hη : 0 ≤ η)
    (h : y - x ≤ η) : a * Real.log (y / x) ≤ η := by
  have hx0 : 0 < x := ha.trans_le hx
  have hlog := Real.log_le_sub_one_of_pos (div_pos hy hx0)
  rw [div_sub_one hx0.ne'] at hlog
  calc a * Real.log (y / x) ≤ a * ((y - x) / x) := mul_le_mul_of_nonneg_left hlog ha.le
    _ = a / x * (y - x) := by ring
    _ ≤ a / x * η := mul_le_mul_of_nonneg_left h (div_nonneg ha.le hx0.le)
    _ ≤ η := mul_le_of_le_one_left hη ((div_le_one hx0).mpr hx)

/-- So is a small error of numbers not below a factor of the logarithm, whatever they are. -/
theorem mul_abs_log_sub_log_le {a : ℝ} (ha : 0 < a) (hx : a ≤ x) (hy : a ≤ y) (hε0 : 0 ≤ ε)
    (hε : ε ≤ 1 / 9) (hη : 0 ≤ η) (h : |y - x| ≤ max (x * ε) η) :
    a * |Real.log y - Real.log x| ≤ 9 / 8 * ε * a + η := by
  have hx0 : 0 < x := ha.trans_le hx
  have hy0 : 0 < y := ha.trans_le hy
  rcases le_max_iff.mp h with hrelative | habsolute
  · have hlog := mul_le_mul_of_nonneg_left (abs_log_sub_log_le hx0 hε hrelative) ha.le
    linarith
  · obtain ⟨hlow, hhigh⟩ := abs_le.mp habsolute
    have hup : a * Real.log (y / x) ≤ η := mul_log_div_le ha hx hy0 hη hhigh
    have hdown : a * Real.log (x / y) ≤ η := mul_log_div_le ha hy hx0 hη (by linarith)
    rw [Real.log_div hy0.ne' hx0.ne'] at hup
    rw [Real.log_div hx0.ne' hy0.ne'] at hdown
    have hslack : 0 ≤ 9 / 8 * ε * a := by positivity
    rcases abs_choice (Real.log y - Real.log x) with heq | heq
    · rw [heq]
      linarith
    · rw [heq]
      linarith

end Logarithm

/-- A half `t` as it is computed for `a` and `b`: both are rounded to `a'` and `b'`, `r` is their rounded
quotient and `l` its logarithm. Among the subnormal numbers errors are at most `η`. -/
structure HalfSteps (a b a' b' r l t η : ℝ) : Prop where
  pos : 0 < a ∧ 0 < b
  first : |a' - a| ≤ a * (1 / 2 ^ 53)
  second : |b' - b| ≤ b * (1 / 2 ^ 53)
  second_le_one : b' ≤ 1
  quotient : |r - a' / b'| ≤ max (a' / b' * (1 / 2 ^ 53)) η
  quotient_ge : a' ≤ r
  logarithm : |l - Real.log r| ≤ |Real.log r| * (1 / 2 ^ 52)
  product : |t - a' * l| ≤ |a' * l| * (1 / 2 ^ 53) + η
  slack : 0 ≤ η

namespace HalfSteps
variable {a b a' b' r l t η : ℝ} (h : HalfSteps a b a' b' r l t η)
include h

theorem first_pos : 0 < a' := by
  have hlow := (abs_le.mp h.first).1
  linarith [h.pos.1]

theorem second_pos : 0 < b' := by
  have hlow := (abs_le.mp h.second).1
  linarith [h.pos.2]

theorem first_le : a' ≤ a + a * (1 / 2 ^ 53) := by
  linarith [(abs_le.mp h.first).2]

/-- Three roundings go into the argument of the logarithm. -/
theorem log_error :
    a' * |Real.log r - Real.log (a / b)| ≤ 27 / 8 * (1 / 2 ^ 53) * a' + η := by
  obtain ⟨ha, hb⟩ := h.pos
  have ha' := h.first_pos
  have hb' := h.second_pos
  have hge : a' ≤ a' / b' := (le_div_iff₀ hb').mpr (mul_le_of_le_one_right ha'.le h.second_le_one)
  have hrounded := mul_abs_log_sub_log_le ha' hge h.quotient_ge (by positivity) (by norm_num)
    h.slack h.quotient
  have hfirst := abs_log_sub_log_le ha (by norm_num) h.first
  have hsecond := abs_log_sub_log_le hb (by norm_num) h.second
  have hexact : |Real.log (a' / b') - Real.log (a / b)| ≤ 9 / 4 * (1 / 2 ^ 53) := by
    rw [Real.log_div ha'.ne' hb'.ne', Real.log_div ha.ne' hb.ne', sub_sub_sub_comm]
    exact (abs_sub _ _).trans (by linarith)
  calc a' * |Real.log r - Real.log (a / b)| ≤ a' * (|Real.log r - Real.log (a' / b')| +
        |Real.log (a' / b') - Real.log (a / b)|) :=
        mul_le_mul_of_nonneg_left (abs_sub_le _ _ _) ha'.le
    _ ≤ 27 / 8 * (1 / 2 ^ 53) * a' + η := by
      have hmul := mul_le_mul_of_nonneg_left hexact ha'.le
      linarith

theorem argument_error : |a' * Real.log r - logRatio a b| ≤
    |logRatio a b| * (1 / 2 ^ 53) + 27 / 8 * (1 / 2 ^ 53) * a' + η := by
  have ha := h.pos.1
  have hsplit : a' * Real.log r - logRatio a b =
      a' * (Real.log r - Real.log (a / b)) + (a' - a) * Real.log (a / b) := by
    unfold logRatio
    ring
  have hfirst : |(a' - a) * Real.log (a / b)| ≤ |logRatio a b| * (1 / 2 ^ 53) := by
    unfold logRatio
    rw [abs_mul, abs_mul, abs_of_pos ha, mul_right_comm]
    exact mul_le_mul_of_nonneg_right h.first (abs_nonneg _)
  have hlog : |a' * (Real.log r - Real.log (a / b))| ≤ 27 / 8 * (1 / 2 ^ 53) * a' + η := by
    rw [abs_mul, abs_of_pos h.first_pos]
    exact h.log_error
  rw [hsplit]
  exact (abs_add_le _ _).trans (by linarith)

theorem product_error :
    |t - a' * Real.log r| ≤ |a' * Real.log r| * (3 / 2 ^ 53 + 1 / 2 ^ 105) + η := by
  have hlog : |a' * l - a' * Real.log r| ≤ |a' * Real.log r| * (1 / 2 ^ 52) := by
    rw [← mul_sub, abs_mul, abs_mul, mul_assoc]
    exact mul_le_mul_of_nonneg_left h.logarithm (abs_nonneg _)
  have hsize : |a' * l| ≤ |a' * l - a' * Real.log r| + |a' * Real.log r| := by
    have habs := abs_add_le (a' * l - a' * Real.log r) (a' * Real.log r)
    rwa [sub_add_cancel] at habs
  have hproduct := h.product
  have htriangle := abs_sub_le t (a' * l) (a' * Real.log r)
  linarith

theorem error : |t - logRatio a b| ≤
    5 / 2 ^ 53 * |logRatio a b| + 7 / 2 * (1 / 2 ^ 53) * a + 3 * η := by
  have hargument := h.argument_error
  have hproduct := h.product_error
  have hfirst := h.first_le
  have htriangle := abs_sub_le t (a' * Real.log r) (logRatio a b)
  have hsize : |a' * Real.log r| ≤ |a' * Real.log r - logRatio a b| + |logRatio a b| := by
    have habs := abs_add_le (a' * Real.log r - logRatio a b) (logRatio a b)
    rwa [sub_add_cancel] at habs
  have hexact := abs_nonneg (logRatio a b)
  have ha := h.pos.1
  have hslack := h.slack
  linarith

end HalfSteps

/-- Errors of the halves take little from half the squared distance. -/
theorem sq_le_sum_of_halves {y m s t η : ℝ} (hy0 : 0 < y) (hy1 : y < 1) (hm0 : 0 < m) (hm1 : m < 1)
    (hs : |s - logRatio y m| ≤
      5 / 2 ^ 53 * |logRatio y m| + 7 / 2 * (1 / 2 ^ 53) * y + 3 * η)
    (ht : |t - logRatio (1 - y) (1 - m)| ≤
      5 / 2 ^ 53 * |logRatio (1 - y) (1 - m)| + 7 / 2 * (1 / 2 ^ 53) * (1 - y) + 3 * η)
    (hη : η ≤ 1 / 2 ^ 200) : (y - m) ^ 2 / 2 - 1 / 2 ^ 51 ≤ s + t := by
  have hdivergence := sq_le_divergence hy0 hy1 hm0 hm1
  have hsuccess := abs_logRatio_le hy0 hm0
  have hfailure := abs_logRatio_le (sub_pos.mpr hy1) (sub_pos.mpr hm1)
  have hdist : |1 - y - (1 - m)| = |y - m| := by
    rw [sub_sub_sub_cancel_left, abs_sub_comm]
  have hsq : |y - m| / 2 ^ 53 * 20 ≤ (y - m) ^ 2 / 4 + 400 / 2 ^ 106 := by
    have hnonneg := sq_nonneg (|y - m| / 2 - 20 / 2 ^ 53)
    rw [sub_sq, div_pow, sq_abs] at hnonneg
    linarith
  have hslow := (abs_le.mp hs).1
  have htlow := (abs_le.mp ht).1
  have hpos := sq_nonneg (y - m)
  rw [hdist] at hfailure
  linarith

namespace Binary64

def slack : ℚ := 1 / 2 ^ (1075 : ℤ)

theorem slack_nonneg : 0 ≤ slack := by
  unfold slack
  positivity

theorem slack_le : slack ≤ 1 / 2 ^ 200 := by
  unfold slack
  exact (Rounds.half_unit_lt (by norm_num)).le

theorem Rounds.abs_sub_le_slack {q : ℚ} {z : Binary64} (h : Rounds q z) (hz : z.IsFinite) :
    |z.value - q| ≤ max (|q| * (1 / 2 ^ 53)) slack := by
  rw [mul_one_div]
  exact h.abs_sub_le_max hz

-- From here on only its two bounds are used.
attribute [irreducible] slack

theorem Rounds.real_error {q : ℚ} {z : Binary64} (h : Rounds q z) (hz : z.IsFinite) :
    |(z.value : ℝ) - q| ≤ max (|(q : ℝ)| * (1 / 2 ^ 53)) (slack : ℝ) := by
  have herror := h.abs_sub_le_slack hz
  rw [← Rat.cast_le (K := ℝ)] at herror
  push_cast at herror
  exact herror

end Binary64

section Row
variable {fns : Elementary Binary64} (hln : LnFinite fns.ln) (haccurate : LnAccurate fns.ln)
include hln haccurate

theorem halfSteps {y m : Binary64} (h : HalfArguments y m) (hpos : 0 < y.value)
    (hquotient : (y / m).IsFinite) {a b : ℝ} (ha : 0 < a) (hb : 0 < b)
    (hfirst : |(y.value : ℝ) - a| ≤ a * (1 / 2 ^ 53))
    (hsecond : |(m.value : ℝ) - b| ≤ b * (1 / 2 ^ 53)) :
    HalfSteps a b y.value m.value (y / m).value (fns.ln (y / m)).value
      (fns.logRatioTerm y m).value slack := by
  have hratio := h.quotient_pos hpos
  have hdiv := h.rounds.real_error hquotient
  have hlog := haccurate _ hquotient hratio
  have hterm := h.term_isFinite hquotient hln
  rw [h.term_of_pos hpos] at hterm ⊢
  have hmul := (rounds_mul h.isFinite (hln _ hquotient hratio)).real_error hterm
  have hnonneg : (0 : ℝ) ≤ (y.value / m.value : ℚ) := by
    exact_mod_cast div_nonneg h.nonneg h.mean_pos.le
  have hslack : (0 : ℝ) ≤ slack := by exact_mod_cast slack_nonneg
  rw [abs_of_nonneg hnonneg] at hdiv
  rw [value_epsilon_real] at hlog
  push_cast at hdiv hmul
  constructor
  case pos => exact ⟨ha, hb⟩
  case first => exact hfirst
  case second => exact hsecond
  case second_le_one => exact_mod_cast h.mean_le_one
  case quotient => exact hdiv
  case quotient_ge => exact_mod_cast (le_iff_value_le h.isFinite hquotient).mp h.quotient_ge
  case logarithm => exact hlog
  case product => exact hmul.trans (max_le_add_of_nonneg (by positivity) hslack)
  case slack => exact hslack

omit hln haccurate in
theorem Interior.complement_error {m : Binary64} (hm : Interior m) :
    |((1 - m).value : ℝ) - (1 - m.value)| ≤ (1 - m.value) * (1 / 2 ^ 53) := by
  have herror := hm.shortOfOne.complement_error
  rw [← mul_one_div, ← Rat.cast_le (K := ℝ)] at herror
  push_cast at herror
  exact herror

/-- Against half the squared distance the sum of the halves is at most 2^-51 too small. -/
theorem sq_le_halves {v m : Binary64} (hv : Interior v) (hm : Interior m)
    (hquotient : (v / m).IsFinite) : (v.value - m.value) ^ 2 / 2 - 1 / 2 ^ 51 ≤
      (fns.logRatioTerm v m).value + (fns.logRatioTerm (1 - v) (1 - m)).value := by
  have hv0 : (0 : ℝ) < v.value := by exact_mod_cast hv.pos
  have hv1 : (v.value : ℝ) < 1 := by exact_mod_cast hv.lt_one
  have hm0 : (0 : ℝ) < m.value := by exact_mod_cast hm.pos
  have hm1 : (m.value : ℝ) < 1 := by exact_mod_cast hm.lt_one
  have hunit : InUnit v := inUnit_iff.mpr ⟨hv.isFinite, hv.pos.le, hv.lt_one.le⟩
  have hcomplement : 0 < (1 - v).value := lt_of_lt_of_le (by positivity) hv.complement.2.1
  have hexact : ∀ x : Binary64, 0 < (x.value : ℝ) →
      |(x.value : ℝ) - x.value| ≤ x.value * (1 / 2 ^ 53) := by
    intro x hx
    rw [sub_self, abs_zero]
    positivity
  have hsuccess := halfSteps hln haccurate (successArguments hunit hm) hv.pos hquotient hv0 hm0
    (hexact v hv0) (hexact m hm0)
  have hfailure := halfSteps hln haccurate (failureArguments hunit hm) hcomplement
    (failureQuotient_isFinite hunit hm) (sub_pos.mpr hv1) (sub_pos.mpr hm1) hv.complement_error
    hm.complement_error
  have hslack := slack_le
  rw [← Rat.cast_le (K := ℝ)] at hslack
  push_cast at hslack
  have hsum := sq_le_sum_of_halves hv0 hv1 hm0 hm1 hsuccess.error hfailure.error hslack
  rw [← Rat.cast_le (K := ℝ)]
  push_cast
  exact hsum

end Row

end BinomialLogit
