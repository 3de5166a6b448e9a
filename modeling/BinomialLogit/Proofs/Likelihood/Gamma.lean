import BinomialLogit.Likelihood.Mass
import BinomialLogit.Proofs.Decimal.Literal
import BinomialLogit.Proofs.Elementary

/-! The approximation of the gamma function beyond the finite factorials. Its poles nearly cancel,
so that what is left of their sum is smaller than what is added to it: the sum stays positive, also
as it is rounded, and its logarithm is finite. -/

namespace BinomialLogit
set_option autoImplicit false
open Binary64

def addPoles (x : Binary64) (poles : List (Binary64 × ℕ)) (start : Binary64) : Binary64 :=
  poles.foldl (fun sum (c, i) => sum + c / (x + .ofNat i - 1)) start

theorem Elementary.lnGamma_eq (fns : Elementary Binary64) (x : Binary64) :
    fns.lnGamma x = fns.ln (addPoles x (gammaCoefficients.zipIdx 1) gammaConstant) + gammaScale
      + (x - half) * fns.ln ((x - half + gammaShift) / naturalBase) := rfl

def polesAt (k : ℚ) (poles : List (Binary64 × ℕ)) : ℚ :=
  (poles.map fun (c, i) => c.value / (k + i)).sum

section Poles
variable {k : ℕ} (hk : 170 < k) (hsmall : k ≤ 2 ^ 41)

theorem ofNat_add_one (h : k + 1 < 2 ^ 53) :
    (ofNat k + 1).IsFinite ∧ (ofNat k + 1).value = k + 1 := by
  have hround := rounds_add (isFinite_ofNat (n := k) (by omega)) isFinite_one
  rw [value_ofNat (by omega), value_one] at hround
  exact hround.eq_of_isValue (by exact_mod_cast isValue_natCast h)

theorem pole_distance {i : ℕ} (h : k + 1 + i < 2 ^ 53) :
    (ofNat k + 1 + ofNat i - 1).IsFinite ∧ (ofNat k + 1 + ofNat i - 1).value = k + i := by
  obtain ⟨hfin, hval⟩ := ofNat_add_one (k := k) (by omega)
  have hsum := rounds_add hfin (isFinite_ofNat (n := i) (by omega))
  rw [hval, value_ofNat (by omega)] at hsum
  obtain ⟨hfin', hval'⟩ := hsum.eq_of_isValue (by exact_mod_cast isValue_natCast h)
  have hdiff := rounds_sub hfin' isFinite_one
  rw [hval', value_one, add_right_comm, add_sub_cancel_right] at hdiff
  exact hdiff.eq_of_isValue (by exact_mod_cast isValue_natCast (n := k + i) (by omega))

include hk hsmall

/-- One more pole moves the sum by little, and the two roundings by next to nothing. -/
theorem add_pole_error {c sum : Binary64} {i : ℕ} (hi : i ≤ 100) (hc : c.IsFinite)
    (hc5 : |c.value| ≤ 5) (hsum : sum.IsFinite) (hbound : |sum.value| + 1 / 16 ≤ 1) :
    (sum + c / (ofNat k + 1 + ofNat i - 1)).IsFinite ∧
      |(sum + c / (ofNat k + 1 + ofNat i - 1)).value - (sum.value + c.value / (k + i))| ≤
        1 / 2 ^ 52 ∧
      |(sum + c / (ofNat k + 1 + ofNat i - 1)).value| ≤ |sum.value| + 1 / 16 := by
  obtain ⟨hfin, hval⟩ := pole_distance (k := k) (i := i) (by omega)
  have hk' : (171 : ℚ) ≤ k := by exact_mod_cast hk
  have hden : (171 : ℚ) ≤ k + i := by linarith [Nat.cast_nonneg (α := ℚ) i]
  have hquot := rounds_div hc hfin (by rw [hval]; linarith)
  rw [hval] at hquot
  have hq : |c.value / (k + i)| ≤ 5 / 171 := by
    rw [abs_div, abs_of_pos (a := (k : ℚ) + i) (by linarith)]
    exact div_le_div₀ (by norm_num) hc5 (by norm_num) hden
  obtain ⟨htfin, hterror⟩ := hquot.unit_error (hq.trans (by norm_num))
  have hadd := rounds_add hsum htfin
  generalize c / (ofNat k + 1 + ofNat i - 1) = t at hquot htfin hterror hadd ⊢
  generalize c.value / (k + i) = q at hquot hq hterror ⊢
  have hs := abs_le.mp (le_refl |sum.value|)
  have ht := abs_le.mp hterror
  have hq' := abs_le.mp hq
  obtain ⟨hzfin, hzerror⟩ := hadd.unit_error (by
    rw [abs_le]
    norm_num at ht
    constructor <;> linarith)
  have hz := abs_le.mp hzerror
  refine ⟨hzfin, ?_, ?_⟩
  · rw [abs_le]
    norm_num at ht hz ⊢
    constructor <;> linarith
  · rw [abs_le]
    norm_num at ht hz ⊢
    constructor <;> linarith

/-- By induction along the poles; that the sum stays in the unit interval carries it. -/
theorem addPoles_error {poles : List (Binary64 × ℕ)} {start : Binary64}
    (hpoles : ∀ p ∈ poles, p.1.IsFinite ∧ |p.1.value| ≤ 5 ∧ p.2 ≤ 100) (hstart : start.IsFinite)
    (hbound : |start.value| + poles.length / 16 ≤ 1) :
    (addPoles (ofNat k + 1) poles start).IsFinite ∧
      |(addPoles (ofNat k + 1) poles start).value - (start.value + polesAt k poles)| ≤
        poles.length / 2 ^ 52 := by
  induction poles generalizing start with
  | nil =>
    refine ⟨hstart, ?_⟩
    simp [addPoles, polesAt]
  | cons p poles ih =>
    obtain ⟨c, i⟩ := p
    obtain ⟨hc, hc5, hi⟩ := hpoles (c, i) List.mem_cons_self
    rw [List.length_cons, Nat.cast_add, Nat.cast_one] at hbound
    have hlength : (0 : ℚ) ≤ poles.length := Nat.cast_nonneg _
    obtain ⟨hfin, herror, hgrow⟩ := add_pole_error hk hsmall hi hc hc5 hstart (by linarith)
    obtain ⟨hz, hrest⟩ := ih (fun p hp => hpoles p (List.mem_cons_of_mem _ hp)) hfin
      (by linarith)
    refine ⟨hz, ?_⟩
    change |(addPoles (ofNat k + 1) poles _).value - _| ≤ _
    have hsplit : polesAt k ((c, i) :: poles) = c.value / (k + i) + polesAt k poles := by
      simp [polesAt]
    rw [hsplit, List.length_cons, Nat.cast_add, Nat.cast_one]
    have h1 := abs_le.mp herror
    have h2 := abs_le.mp hrest
    rw [abs_le]
    norm_num at h1 h2 ⊢
    constructor <;> linarith

end Poles

section Coefficients

theorem coefficients_moderate : ∀ c ∈ gammaCoefficients, c.IsFinite ∧ |c.value| ≤ 5 := by
  have hbounds : ∀ c ∈ gammaCoefficients, -ofNat 5 ≤ c ∧ c ≤ ofNat 5 := by decide +kernel
  intro c hc
  exact_mod_cast abs_value_le_ofNat (by norm_num) (hbounds c hc)

/-- The constants of the approximation as they are written, up to 10^-12. -/
theorem constant_error {digits places : ℕ} (hdigits : digits ≠ 0) (hplaces : places ≤ 60)
    (hsize : digits ≤ 20 * 10 ^ places) :
    |(OfScientific.ofScientific digits true places : Binary64).value - digits / 10 ^ places| ≤
      1 / 10 ^ 12 := by
  have hten : (0 : ℚ) < 10 ^ places := by positivity
  have hle : (digits : ℚ) / 10 ^ places ≤ 20 := by
    rw [div_le_iff₀ hten]
    exact_mod_cast hsize
  have hge : 1 / 2 ^ 200 ≤ (digits : ℚ) / 10 ^ places := by
    refine div_le_div₀ (by positivity) ?_ hten ?_
    · exact_mod_cast Nat.one_le_iff_ne_zero.mpr hdigits
    · exact (pow_le_pow_right₀ (by norm_num) hplaces).trans (by norm_num)
  obtain ⟨-, herror⟩ := literal_error hdigits (hplaces.trans (by norm_num)) hge
    (hle.trans (by norm_num))
  norm_num at herror ⊢
  linarith

/-- Numbers with few digits below the coefficients. -/
def coefficientBounds : List ℚ :=
  [1.05142378, -3.4568710, 4.5122770, -2.9828523, 1.0563971, -0.1954288, 0.0170970, -0.0005720, 0,
    -0.0000001]

theorem coefficients_ge :
    List.Forall₂ (fun (c : Binary64) (d : ℚ) => d ≤ c.value) gammaCoefficients
      coefficientBounds := by
  have hpos : ∀ {digits places : ℕ} {d : ℚ}, digits ≠ 0 → places ≤ 60 → digits ≤ 20 * 10 ^ places →
      d + 1 / 10 ^ 12 ≤ digits / 10 ^ places →
        d ≤ (OfScientific.ofScientific digits true places : Binary64).value := by
    intro digits places d h0 hp hs hd
    have herror := abs_le.mp (constant_error h0 hp hs)
    linarith [herror.1]
  have hneg : ∀ {digits places : ℕ} {d : ℚ}, digits ≠ 0 → places ≤ 60 → digits ≤ 20 * 10 ^ places →
      d + 1 / 10 ^ 12 ≤ -(digits / 10 ^ places) →
        d ≤ (-OfScientific.ofScientific digits true places : Binary64).value := by
    intro digits places d h0 hp hs hd
    have herror := abs_le.mp (constant_error h0 hp hs)
    rw [value_neg]
    linarith [herror.2]
  unfold gammaCoefficients coefficientBounds
  refine .cons ?_ <| .cons ?_ <| .cons ?_ <| .cons ?_ <| .cons ?_ <| .cons ?_ <| .cons ?_ <|
    .cons ?_ <| .cons ?_ <| .cons ?_ .nil
  · exact hpos (by norm_num) (by norm_num) (by norm_num) (by norm_num)
  · exact hneg (by norm_num) (by norm_num) (by norm_num) (by norm_num)
  · exact hpos (by norm_num) (by norm_num) (by norm_num) (by norm_num)
  · exact hneg (by norm_num) (by norm_num) (by norm_num) (by norm_num)
  · exact hpos (by norm_num) (by norm_num) (by norm_num) (by norm_num)
  · exact hneg (by norm_num) (by norm_num) (by norm_num) (by norm_num)
  · exact hpos (by norm_num) (by norm_num) (by norm_num) (by norm_num)
  · exact hneg (by norm_num) (by norm_num) (by norm_num) (by norm_num)
  · exact hpos (by norm_num) (by norm_num) (by norm_num) (by norm_num)
  · exact hneg (by norm_num) (by norm_num) (by norm_num) (by norm_num)

variable {k v d i : ℚ} (hk : 0 < k) (hi : 0 ≤ i) (hv : d ≤ v)
include hk hi hv

/-- A pole with a positive coefficient is at least its first two terms in one over the distance. -/
theorem pole_ge_of_nonneg (hd : 0 ≤ d) : d * (1 / k - i * (1 / k) ^ 2) ≤ v / (k + i) := by
  have hsum : 0 < k + i := by linarith
  have hseries : 1 / k - i * (1 / k) ^ 2 ≤ 1 / (k + i) := by
    rw [← sub_nonneg]
    have hrest : 1 / (k + i) - (1 / k - i * (1 / k) ^ 2) = i ^ 2 / (k ^ 2 * (k + i)) := by
      field_simp
      ring
    rw [hrest]
    positivity
  calc d * (1 / k - i * (1 / k) ^ 2) ≤ d * (1 / (k + i)) := mul_le_mul_of_nonneg_left hseries hd
    _ = d / (k + i) := by ring
    _ ≤ v / (k + i) := div_le_div_of_nonneg_right hv hsum.le

/-- With a negative one it is at least its first three. -/
theorem pole_ge_of_nonpos (hd : d ≤ 0) :
    d * (1 / k - i * (1 / k) ^ 2 + i ^ 2 * (1 / k) ^ 3) ≤ v / (k + i) := by
  have hsum : 0 < k + i := by linarith
  have hseries : 1 / (k + i) ≤ 1 / k - i * (1 / k) ^ 2 + i ^ 2 * (1 / k) ^ 3 := by
    rw [← sub_nonneg]
    have hrest : 1 / k - i * (1 / k) ^ 2 + i ^ 2 * (1 / k) ^ 3 - 1 / (k + i) =
        i ^ 3 / (k ^ 3 * (k + i)) := by
      field_simp
      ring
    rw [hrest]
    positivity
  calc d * (1 / k - i * (1 / k) ^ 2 + i ^ 2 * (1 / k) ^ 3) ≤ d * (1 / (k + i)) :=
        mul_le_mul_of_nonpos_left hseries hd
    _ = d / (k + i) := by ring
    _ ≤ v / (k + i) := div_le_div_of_nonneg_right hv hsum.le

end Coefficients

/-- The first two orders of the poles add up to something positive, and the third is small. -/
theorem polesAt_ge {k : ℚ} (hk : 171 ≤ k) :
    -(14 / 10 ^ 6) ≤ polesAt k (gammaCoefficients.zipIdx 1) := by
  have hpos : 0 < k := by linarith
  have hbounds := coefficients_ge
  unfold gammaCoefficients coefficientBounds at hbounds
  simp only [List.forall₂_cons] at hbounds
  obtain ⟨h1, h2, h3, h4, h5, h6, h7, h8, h9, h10, -⟩ := hbounds
  have t1 := pole_ge_of_nonneg (i := 1) hpos (by norm_num) h1 (by norm_num)
  have t2 := pole_ge_of_nonpos (i := 2) hpos (by norm_num) h2 (by norm_num)
  have t3 := pole_ge_of_nonneg (i := 3) hpos (by norm_num) h3 (by norm_num)
  have t4 := pole_ge_of_nonpos (i := 4) hpos (by norm_num) h4 (by norm_num)
  have t5 := pole_ge_of_nonneg (i := 5) hpos (by norm_num) h5 (by norm_num)
  have t6 := pole_ge_of_nonpos (i := 6) hpos (by norm_num) h6 (by norm_num)
  have t7 := pole_ge_of_nonneg (i := 7) hpos (by norm_num) h7 (by norm_num)
  have t8 := pole_ge_of_nonpos (i := 8) hpos (by norm_num) h8 (by norm_num)
  have t9 := pole_ge_of_nonneg (i := 9) hpos (by norm_num) h9 (by norm_num)
  have t10 := pole_ge_of_nonpos (i := 10) hpos (by norm_num) h10 (by norm_num)
  have hu : 0 < 1 / k := by positivity
  have hu2 : 0 < (1 / k) ^ 2 := by positivity
  have hu3 : (1 / k) ^ 3 ≤ (1 / 171) ^ 3 :=
    pow_le_pow_left₀ hu.le (one_div_le_one_div_of_le (by norm_num) hk) 3
  unfold polesAt gammaCoefficients
  simp only [List.zipIdx_cons, List.zipIdx_nil, List.map_cons, List.map_nil, List.sum_cons,
    List.sum_nil, Nat.reduceAdd, Nat.cast_one, Nat.cast_ofNat]
  generalize 1 / k = u at t1 t2 t3 t4 t5 t6 t7 t8 t9 t10 hu hu2 hu3
  linarith

theorem gammaShift_between :
    gammaShift.IsFinite ∧ 10 ≤ gammaShift.value ∧ gammaShift.value ≤ 11 := by
  exact_mod_cast between_ofNat (m := 10) (n := 11) (by norm_num) (by norm_num) (by decide +kernel)

theorem gammaScale_between :
    gammaScale.IsFinite ∧ 0 ≤ gammaScale.value ∧ gammaScale.value ≤ 1 := by
  exact_mod_cast between_ofNat (m := 0) (n := 1) (by norm_num) (by norm_num) (by decide +kernel)

theorem naturalBase_between :
    naturalBase.IsFinite ∧ 2 ≤ naturalBase.value ∧ naturalBase.value ≤ 3 := by
  exact_mod_cast between_ofNat (m := 2) (n := 3) (by norm_num) (by norm_num) (by decide +kernel)

theorem half_between : half.IsFinite ∧ 0 ≤ half.value ∧ half.value ≤ 1 := by
  exact_mod_cast between_ofNat (m := 0) (n := 1) (by norm_num) (by norm_num) (by decide +kernel)

section Gamma
variable {k : ℕ} (hk : 170 < k)
include hk

theorem series_pos (hsmall : k ≤ 2 ^ 41) :
    (addPoles (ofNat k + 1) (gammaCoefficients.zipIdx 1) gammaConstant).IsFinite ∧
      0 < (addPoles (ofNat k + 1) (gammaCoefficients.zipIdx 1) gammaConstant).value := by
  have hconstant : gammaConstant.IsFinite ∧
      |gammaConstant.value - 248574089138753565546 / 10 ^ 25| ≤ 1 / 10 ^ 12 :=
    ⟨by decide +kernel, by
      exact_mod_cast constant_error (show (248574089138753565546 : ℕ) ≠ 0 by norm_num)
        (show 25 ≤ 60 by norm_num) (by norm_num)⟩
  have hvalue := abs_le.mp hconstant.2
  have hpoles : ∀ p ∈ gammaCoefficients.zipIdx 1, p.1.IsFinite ∧ |p.1.value| ≤ 5 ∧ p.2 ≤ 100 := by
    intro p hp
    obtain ⟨c, i⟩ := p
    obtain ⟨hfin, hle⟩ := coefficients_moderate c (List.fst_mem_of_mem_zipIdx hp)
    have hi := List.snd_lt_add_of_mem_zipIdx hp
    refine ⟨hfin, hle, ?_⟩
    change i ≤ 100
    change i < 10 + 1 at hi
    omega
  have hlength : ((gammaCoefficients.zipIdx 1).length : ℚ) = 10 := rfl
  obtain ⟨hfin, herror⟩ := addPoles_error hk hsmall hpoles hconstant.1 (by
    rw [hlength, abs_of_pos (by linarith)]
    linarith)
  refine ⟨hfin, ?_⟩
  have hge := polesAt_ge (k := k) (by exact_mod_cast hk)
  rw [hlength] at herror
  have hdown := (abs_le.mp herror).1
  norm_num at hdown hvalue hge
  linarith

/-- The argument of the second logarithm. -/
theorem scaled_between (hsmall : k + 12 < 2 ^ 53) :
    (ofNat k + 1 - half).IsFinite ∧ (k : ℚ) ≤ (ofNat k + 1 - half).value ∧
      (ofNat k + 1 - half).value ≤ k + 1 ∧
      ((ofNat k + 1 - half + gammaShift) / naturalBase).IsFinite ∧
      0 < ((ofNat k + 1 - half + gammaShift) / naturalBase).value := by
  obtain ⟨hxfin, hx⟩ := ofNat_add_one (k := k) (by omega)
  obtain ⟨hhalf, hhalf0, hhalf1⟩ := half_between
  obtain ⟨hshift, hshift0, hshift1⟩ := gammaShift_between
  obtain ⟨hbase, hbase0, hbase1⟩ := naturalBase_between
  have hk' : (0 : ℚ) < k := by exact_mod_cast Nat.lt_of_le_of_lt (Nat.zero_le _) hk
  have hdiff := rounds_sub hxfin hhalf
  rw [hx] at hdiff
  obtain ⟨hdfin, hdlow, hdhigh⟩ := hdiff.between (isValue_natCast (n := k) (by omega))
    (isValue_natCast (n := k + 1) (by omega)) (by linarith) (by push_cast; linarith)
  push_cast at hdhigh
  have hsum := rounds_add hdfin hshift
  obtain ⟨hsfin, hslow, hshigh⟩ := hsum.between (isValue_natCast (n := k) (by omega))
    (isValue_natCast (n := k + 12) (by omega)) (by linarith) (by push_cast; linarith)
  push_cast at hshigh
  have hquot := rounds_div hsfin hbase (by linarith)
  obtain ⟨hqfin, hqlow, -⟩ := hquot.between isValue_one
    (isValue_natCast (n := k + 12) (by omega))
    (by
      rw [le_div_iff₀ (by linarith)]
      have : (171 : ℚ) ≤ k := by exact_mod_cast hk
      linarith)
    (by
      rw [div_le_iff₀ (by linarith)]
      push_cast
      nlinarith)
  exact ⟨hdfin, hdlow, hdhigh, hqfin, by linarith⟩

theorem lnGamma_bounded {fns : Elementary Binary64} (hln : LnBounded fns.ln)
    (hsmall : k + 1 ≤ 2 ^ 41) :
    (fns.lnGamma (ofNat k + 1)).IsFinite ∧ |(fns.lnGamma (ofNat k + 1)).value| ≤ 2 ^ 52 := by
  obtain ⟨hsfin, hspos⟩ := series_pos hk (by omega)
  obtain ⟨hdfin, hdlow, hdhigh, hqfin, hqpos⟩ := scaled_between hk (by omega)
  obtain ⟨hscale, hscale0, hscale1⟩ := gammaScale_between
  obtain ⟨hafin, ha⟩ := hln.of_value_pos hsfin hspos
  obtain ⟨hbfin, hb⟩ := hln.of_value_pos hqfin hqpos
  have hsmall' : (k : ℚ) + 1 ≤ 2 ^ 41 := by exact_mod_cast hsmall
  obtain ⟨hcfin, hc⟩ := (rounds_add hafin hscale).abs_value_le
    (isValue_natCast (n := 747) (by norm_num)) ((abs_add_le _ _).trans (by
      rw [abs_of_nonneg hscale0]
      push_cast
      linarith))
  obtain ⟨hmfin, hm⟩ := (rounds_mul hdfin hbfin).abs_value_le
    (isValue_two_pow (n := 51) (by norm_num)) (by
      rw [abs_mul, abs_of_nonneg ((Nat.cast_nonneg k).trans hdlow)]
      calc _ ≤ (2 : ℚ) ^ 41 * 746 :=
            mul_le_mul (hdhigh.trans hsmall') hb (abs_nonneg _) (by norm_num)
        _ ≤ 2 ^ 51 := by norm_num)
  rw [fns.lnGamma_eq]
  refine (rounds_add hcfin hmfin).abs_value_le (isValue_two_pow (n := 52) (by norm_num))
    ((abs_add_le _ _).trans ?_)
  norm_num at hc hm ⊢
  linarith

end Gamma

end BinomialLogit
