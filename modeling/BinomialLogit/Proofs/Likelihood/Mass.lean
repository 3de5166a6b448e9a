import BinomialLogit.Proofs.Likelihood.Gamma
import BinomialLogit.Proofs.Mean
import Mathlib.Data.Nat.Factorial.Basic

/-! The logarithm of the binomial probability mass away from the ends of the unit interval: all that
it is computed from stays finite for up to 2^40 trials. -/

namespace BinomialLogit
set_option autoImplicit false
open Binary64

/-- One product, as long as the exact one stays below a value. -/
theorem mul_ofNat_between {x : Binary64} {n : ℕ} {top : ℚ} (hx : x.IsFinite) (hone : 1 ≤ x.value)
    (hn : 1 ≤ n) (hn53 : n < 2 ^ 53) (htop : IsValue top) (hle : x.value * n ≤ top) :
    (x * ofNat n).IsFinite ∧ 1 ≤ (x * ofNat n).value ∧
      (x * ofNat n).value ≤ x.value * n * (1 + 1 / 2 ^ 53) := by
  have hround := rounds_mul hx (isFinite_ofNat hn53)
  rw [value_ofNat hn53] at hround
  have hn' : (1 : ℚ) ≤ n := by exact_mod_cast hn
  have hq : 1 ≤ x.value * n := one_le_mul_of_one_le_of_one_le hone hn'
  obtain ⟨hz, hlow, -⟩ := hround.between isValue_one htop hq hle
  exact ⟨hz, hlow, hround.value_le_mul hz hq⟩

/-- The exact factorials up to the last stay below half a power of two, and every product gains less
than one part in 2^52. -/
theorem factorial_between {k : ℕ} (hk : k ≤ lastFactorial) : (factorial k).IsFinite ∧
    1 ≤ (factorial k).value ∧ (factorial k).value ≤ k.factorial * (1 + k / 2 ^ 52) := by
  obtain ⟨top, htop, hlast⟩ : ∃ top : ℚ, IsValue top ∧
      ∀ f : ℕ, f ≤ Nat.factorial 170 → (f : ℚ) * 2 ≤ top := by
    obtain ⟨n, hn, hnat⟩ : ∃ n, n ≤ 1023 ∧ Nat.factorial 170 * 2 ≤ 2 ^ n :=
      ⟨1023, le_rfl, by decide +kernel⟩
    refine ⟨2 ^ n, isValue_two_pow hn, ?_⟩
    intro f hf
    exact_mod_cast (Nat.mul_le_mul_right 2 hf).trans hnat
  induction k with
  | zero =>
    refine ⟨isFinite_one, value_one.ge, ?_⟩
    change (1 : Binary64).value ≤ _
    simp
  | succ k ih =>
    have hk' : k + 1 ≤ 170 := hk
    obtain ⟨hfin, hone, hle⟩ := ih (Nat.le_of_succ_le hk)
    have hk170 : (k : ℚ) + 1 ≤ 170 := by exact_mod_cast hk'
    have hk0 : (0 : ℚ) ≤ k := Nat.cast_nonneg k
    have hfact : (0 : ℚ) < (k + 1).factorial := by exact_mod_cast Nat.factorial_pos _
    have hprod : (factorial k).value * (k + 1 : ℕ) ≤ (k + 1).factorial * (1 + k / 2 ^ 52) := by
      rw [Nat.factorial_succ, Nat.cast_mul]
      linarith [mul_le_mul_of_nonneg_right hle (Nat.cast_nonneg (α := ℚ) (k + 1))]
    have hbelow : (factorial k).value * (k + 1 : ℕ) ≤ top := by
      refine hprod.trans (le_trans ?_ (hlast _ (Nat.factorial_le hk')))
      exact mul_le_mul_of_nonneg_left (by norm_num; linarith) hfact.le
    obtain ⟨hz, hlow, hhigh⟩ := mul_ofNat_between hfin hone (by omega) (by omega) htop hbelow
    refine ⟨hz, hlow, hhigh.trans ?_⟩
    calc _ ≤ ((k + 1).factorial : ℚ) * (1 + k / 2 ^ 52) * (1 + 1 / 2 ^ 53) :=
          mul_le_mul_of_nonneg_right hprod (by norm_num)
      _ = (k + 1).factorial * ((1 + k / 2 ^ 52) * (1 + 1 / 2 ^ 53)) := mul_assoc _ _ _
      _ ≤ (k + 1).factorial * (1 + (k + 1 : ℕ) / 2 ^ 52) := by
        apply mul_le_mul_of_nonneg_left _ hfact.le
        push_cast
        norm_num
        linarith

section Mass
variable {fns : Elementary Binary64} (hln : LnBounded fns.ln)
include hln

theorem lnFactorial_bounded {k : ℕ} (hk : k ≤ 2 ^ 40) :
    (fns.lnFactorial k).IsFinite ∧ |(fns.lnFactorial k).value| ≤ 2 ^ 52 := by
  unfold Elementary.lnFactorial
  split
  · rename_i hsmall
    obtain ⟨hsmallfin, hone, -⟩ := factorial_between hsmall
    obtain ⟨hfin, hle⟩ := hln.of_value_pos hsmallfin (by linarith)
    exact ⟨hfin, hle.trans (by norm_num)⟩
  · rename_i hlarge
    have hlarge' : 170 < k := Nat.lt_of_not_le hlarge
    exact lnGamma_bounded hlarge' hln (by omega)

theorem lnChoose_bounded {n k : ℕ} (hn : n ≤ 2 ^ 40) (hk : k ≤ n) :
    (fns.lnChoose n k).IsFinite ∧ |(fns.lnChoose n k).value| ≤ 2 ^ 54 := by
  obtain ⟨hafin, ha⟩ := lnFactorial_bounded hln hn
  obtain ⟨hbfin, hb⟩ := lnFactorial_bounded hln (hk.trans hn)
  obtain ⟨hcfin, hc⟩ := lnFactorial_bounded hln ((Nat.sub_le n k).trans hn)
  obtain ⟨hdfin, hd⟩ := (rounds_sub hafin hbfin).abs_value_le
    (isValue_two_pow (n := 53) (by norm_num))
    ((abs_sub _ _).trans (by norm_num at ha hb ⊢; linarith))
  refine (rounds_sub hdfin hcfin).abs_value_le (isValue_two_pow (n := 54) (by norm_num))
    ((abs_sub _ _).trans ?_)
  norm_num at hc hd ⊢
  linarith

theorem weighted_ln_bounded {n : ℕ} (hn : n ≤ 2 ^ 40) {q : Binary64} (hq : q.IsFinite)
    (hpos : 0 < q.value) :
    (ofNat n * fns.ln q).IsFinite ∧ |(ofNat n * fns.ln q).value| ≤ 2 ^ 50 := by
  obtain ⟨hfin, hle⟩ := hln.of_value_pos hq hpos
  have hround := rounds_mul (isFinite_ofNat (n := n) (by omega)) hfin
  rw [value_ofNat (by omega)] at hround
  refine hround.abs_value_le (isValue_two_pow (n := 50) (by norm_num)) ?_
  have hn' : (n : ℚ) ≤ 2 ^ 40 := by exact_mod_cast hn
  rw [abs_mul, Nat.abs_cast]
  calc _ ≤ (2 : ℚ) ^ 40 * 746 := mul_le_mul hn' hle (abs_nonneg _) (by norm_num)
    _ ≤ 2 ^ 50 := by norm_num

theorem lnMass_bounded {p : Binary64} (hp : Interior p) (hcertain : ¬certain ≤ p) {n k : ℕ}
    (hn : n ≤ 2 ^ 40) (hk : k ≤ n) :
    (fns.lnMass p n k).IsFinite ∧ |(fns.lnMass p n k).value| ≤ 2 ^ 56 := by
  have hzero : ¬p.Agrees 0 := by
    intro hagrees
    have hle := hagrees.1
    rw [hp.isFinite.nonpos_iff] at hle
    linarith [hp.pos]
  obtain ⟨hqfin, hqlow, -⟩ := hp.complement
  obtain ⟨hafin, ha⟩ := lnChoose_bounded hln hn hk
  obtain ⟨hbfin, hb⟩ := weighted_ln_bounded hln (hk.trans hn) hp.isFinite hp.pos
  obtain ⟨hcfin, hc⟩ := weighted_ln_bounded hln ((Nat.sub_le n k).trans hn) hqfin
    (lt_of_lt_of_le (by positivity) hqlow)
  unfold Elementary.lnMass
  rw [if_neg (Nat.not_lt.mpr hk), if_neg hzero, if_neg hcertain]
  obtain ⟨hdfin, hd⟩ := (rounds_add hafin hbfin).abs_value_le
    (isValue_two_pow (n := 55) (by norm_num))
    ((abs_add_le _ _).trans (by norm_num at ha hb ⊢; linarith))
  refine (rounds_add hdfin hcfin).abs_value_le (isValue_two_pow (n := 56) (by norm_num))
    ((abs_add_le _ _).trans ?_)
  norm_num at hc hd ⊢
  linarith

end Mass

theorem lnMass_of_certain (fns : Elementary Binary64) {p : Binary64} (hzero : ¬p.Agrees 0)
    (hcertain : certain ≤ p) {n k : ℕ} (hk : k ≤ n) :
    fns.lnMass p n k = if k = n then 0 else impossible := by
  unfold Elementary.lnMass
  rw [if_neg (Nat.not_lt.mpr hk), if_neg hzero, if_pos hcertain]

end BinomialLogit
