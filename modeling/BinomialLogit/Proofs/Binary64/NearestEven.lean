import BinomialLogit.Proofs.Binary64.Rounds

/-! Rounding to nearest, told from outside: which double a number is rounded to. Where two doubles
are equally near, the significand of the result is even; from the last middle on the result is
infinite, and up to half a unit it is zero. -/

namespace BinomialLogit.Binary64
set_option autoImplicit false

def EvenSignificand : Binary64 → Prop
  | finite _ u _ => 2 ∣ u / granule u
  | _ => False

/-- No finite double is nearer to the number, and another one is equally near only if the
significand of this one is even. -/
structure NearestEven (q : ℚ) (x : Binary64) : Prop where
  finite : x.IsFinite
  nearest : ∀ b : Binary64, b.IsFinite → |x.value - q| ≤ |b.value - q|
  even : ∀ b : Binary64, b.IsFinite → b.value ≠ x.value → |b.value - q| = |x.value - q| →
    x.EvenSignificand

section Magnitudes
variable {num den v : ℕ} (hd : 0 < den)
include hd

/-- An integer half way from the quotient is even when the quotient is rounded to it. -/
theorem two_dvd_roundHalfEven (h : |(roundHalfEven num den : ℚ) - num / den| = 1 / 2) :
    2 ∣ roundHalfEven num den := by
  have hd' : (den : ℚ) ≠ 0 := by exact_mod_cast hd.ne'
  have hself := (roundHalfEven_le_iff hd).mp (Nat.le_refl (roundHalfEven num den))
  generalize hk : roundHalfEven num den = k at h hself
  rcases abs_eq (by norm_num : (0 : ℚ) ≤ 1 / 2) |>.mp h with habove | hbelow
  · have hmiddle : (2 : ℚ) * num + den = 2 * k * den := by
      field_simp at habove
      linarith
    have hmiddle' : 2 * num + den = 2 * k * den := by exact_mod_cast hmiddle
    obtain ⟨j, rfl⟩ : ∃ j, k = j + 1 := by
      apply Nat.exists_eq_succ_of_ne_zero
      rintro rfl
      omega
    have hrefused : ¬roundHalfEven num den ≤ j := by omega
    rw [roundHalfEven_le_iff hd] at hrefused
    have hnum : 2 * num = (2 * j + 1) * den := by
      have hsplit : 2 * (j + 1) * den = (2 * j + 1) * den + den := by ring
      omega
    have hodd : j % 2 ≠ 0 := by
      intro heven
      exact hrefused (.inr ⟨hnum, heven⟩)
    omega
  · have hmiddle : (2 : ℚ) * num = (2 * k + 1) * den := by
      field_simp at hbelow
      linarith
    have hmiddle' : 2 * num = (2 * k + 1) * den := by exact_mod_cast hmiddle
    rcases hself with hlt | ⟨-, heven⟩
    · omega
    · exact Nat.dvd_of_mod_eq_zero heven

/-- The grid of the result is that of the quotient, unless the result is the next power of two. -/
theorem granule_nearestUnits_dvd : granule (nearestUnits num den) ∣ granule (num / den) ∨
    2 * granule (nearestUnits num den) ∣ nearestUnits num den := by
  generalize hu : nearestUnits num den = u
  by_cases hlog : u.log2 - 52 ≤ (num / den).log2 - 52
  · exact .inl (Nat.pow_dvd_pow 2 hlog)
  · right
    have hle : u ≤ 2 ^ u.log2 := by
      have hbound : nearestUnits num den ≤ 2 ^ u.log2 :=
        nearestUnits_le_two_pow hd (by omega) (by omega)
      rwa [hu] at hbound
    have hne : u ≠ 0 := by
      rintro rfl
      simp at hlog
    have hpow : 2 ^ u.log2 = u := Nat.le_antisymm (Nat.log2_self_le hne) hle
    have hdvd : 2 * granule u ∣ 2 ^ u.log2 := by
      rw [granule, Nat.mul_comm, ← Nat.pow_succ]
      exact Nat.pow_dvd_pow 2 (by omega)
    rwa [hpow] at hdvd

/-- A tie is decided for the even significand. -/
theorem two_mul_granule_dvd_nearestUnits (hv : granule v ∣ v) (hne : v ≠ nearestUnits num den)
    (heq : |(v : ℚ) - num / den| = |(nearestUnits num den : ℚ) - num / den|) :
    2 * granule (nearestUnits num den) ∣ nearestUnits num den := by
  rcases granule_nearestUnits_dvd hd with hgrid | hdone
  swap
  · exact hdone
  obtain ⟨m, rfl⟩ : granule (num / den) ∣ v := by
    by_contra hdvd
    exact absurd heq (abs_nearestUnits_sub_lt num hd hv hdvd).ne'
  have hg : (granule (num / den) : ℚ) ≠ 0 := by exact_mod_cast (granule_pos (num / den)).ne'
  have hunits : nearestUnits num den =
      granule (num / den) * roundHalfEven num (den * granule (num / den)) := rfl
  have hd2 : 0 < den * granule (num / den) := Nat.mul_pos hd (granule_pos _)
  have herror := abs_roundHalfEven_sub_le num hd2
  have heven := @two_dvd_roundHalfEven num _ hd2
  generalize roundHalfEven num (den * granule (num / den)) = k at hunits herror heven
  rw [hunits] at hne heq
  rw [granule_mul_sub num m hd, granule_mul_sub num k hd, abs_mul, abs_mul,
    mul_right_inj' (abs_ne_zero.mpr hg)] at heq
  have hone : (1 : ℚ) ≤ |(m : ℚ) - k| := one_le_abs_sub fun h => hne (by rw [h])
  have htri := abs_sub_le (m : ℚ) (num / ((den * granule (num / den) : ℕ) : ℚ)) k
  rw [abs_sub_comm (_ / _)] at htri
  have hhalf := heven (le_antisymm herror (by linarith))
  rw [hunits] at hgrid ⊢
  rw [Nat.mul_comm 2]
  exact Nat.mul_dvd_mul hgrid hhalf

theorem nearestUnits_eq_zero (h : 2 * num ≤ den) : nearestUnits num den = 0 := by
  have hquot : num / den = 0 := Nat.div_eq_of_lt (by omega)
  have hg : granule (num / den) = 1 := by
    rw [hquot, granule, Nat.log2_zero]
  have hround : roundHalfEven num den ≤ 0 := (roundHalfEven_le_iff hd).mpr (by omega)
  unfold nearestUnits
  dsimp only
  rw [hg, Nat.mul_one, Nat.one_mul]
  omega

/-- From the middle between the greatest magnitude and the limit on, the limit is reached. -/
theorem limit_le_nearestUnits (h : (2 ^ 54 - 1) * (limit * den) ≤ num * 2 ^ 54) :
    limit ≤ nearestUnits num den := by
  rcases Nat.lt_or_ge num (limit * den) with hlt | hge
  swap
  · calc limit = nearestUnits limit 1 := (nearestUnits_one granule_dvd_limit).symm
      _ ≤ nearestUnits num den := nearestUnits_mono Nat.one_pos hd (by omega)
  obtain ⟨places, hplaces, hlimit⟩ := limit_eq_two_pow
  replace hplaces : 54 ≤ places := hplaces ▸ by decide
  have hquot : 2 ^ (places - 1) ≤ num / den := by
    rw [Nat.le_div_iff_mul_le hd]
    have hhalves : limit * den = 2 * (2 ^ (places - 1) * den) := by
      rw [hlimit, ← Nat.mul_assoc, ← Nat.pow_succ', Nat.succ_eq_add_one,
        Nat.sub_add_cancel (by omega)]
    rw [hhalves] at h
    omega
  have hlog : (num / den).log2 = places - 1 := by
    have hpos := Nat.two_pow_pos (places - 1)
    rw [Nat.log2_eq_iff (by omega), Nat.sub_add_cancel (by omega), ← hlimit]
    exact ⟨hquot, (Nat.div_lt_iff_lt_mul hd).mpr hlt⟩
  have hg : granule (num / den) * 2 ^ 53 = limit := by
    rw [granule_mul_of_log2 hplaces hlog, hlimit]
  have hround : 2 ^ 53 ≤ roundHalfEven num (den * granule (num / den)) := by
    have hspacings : limit * den = 2 ^ 53 * (den * granule (num / den)) := by
      rw [← hg]
      ring
    rw [hspacings] at h
    by_contra hless
    have hle : roundHalfEven num (den * granule (num / den)) ≤ 2 ^ 53 - 1 := by omega
    rcases (roundHalfEven_le_iff (Nat.mul_pos hd (granule_pos _))).mp hle with hlt | ⟨-, heven⟩
    · omega
    · norm_num at heven
  unfold nearestUnits
  dsimp only
  calc limit = granule (num / den) * 2 ^ 53 := hg.symm
    _ ≤ granule (num / den) * roundHalfEven num (den * granule (num / den)) :=
        Nat.mul_le_mul_left _ hround

end Magnitudes

/-- Two numbers equally far from a third are so without their signs, if the first is not farther
than zero: a number of the other sign would be. -/
theorem magnitude_of_signs {s t : Bool} {u v num den : ℕ} (hq : (0 : ℚ) ≤ num / den)
    (hzero : |(u : ℚ) - num / den| ≤ num / den)
    (heq : |(signed t v : ℚ) - (signed s num : ℚ) / den| = |(u : ℚ) - num / den|)
    (hne : ¬(signed t v : ℚ) = signed s u) :
    |(v : ℚ) - num / den| = |(u : ℚ) - num / den| ∧ v ≠ u := by
  have hv : (0 : ℚ) ≤ v := by positivity
  by_cases hst : t = s
  · subst hst
    refine ⟨?_, fun h => hne (by rw [h])⟩
    rw [← heq]
    cases t with
    | false => rfl
    | true =>
      rw [signed_true, signed_true, ← abs_neg]
      push_cast
      congr 1
      ring
  · have hsum : |(signed t v : ℚ) - (signed s num : ℚ) / den| = v + num / den := by
      cases s <;> cases t <;> simp only [signed_false, signed_true] at hst ⊢ <;> push_cast
      · exact absurd trivial hst
      · rw [← neg_add', abs_neg, abs_of_nonneg (by linarith)]
      · rw [neg_div, sub_neg_eq_add, abs_of_nonneg (by linarith)]
      · exact absurd trivial hst
    have hv0 : v = 0 := by
      have : (v : ℚ) = 0 := by linarith
      exact_mod_cast this
    subst hv0
    constructor
    · rw [← heq, hsum, Nat.cast_zero, zero_sub, zero_add, abs_neg, abs_of_nonneg hq]
    · rintro rfl
      apply hne
      cases s <;> cases t <;> simp

section Quotients
variable (s : Bool) {num den : ℕ} (hd : 0 < den)
include hd

theorem ofQuotient_eq_zero (h : 2 * num ≤ den) : ofQuotient s num den = zero s := by
  have hunits : nearestUnits num den = 0 := nearestUnits_eq_zero hd h
  have hlimit : 0 < limit := representable_zero.1
  unfold ofQuotient zero
  simp only [hunits, hlimit, dif_pos]

theorem ofQuotient_eq_infinity (h : (2 ^ 54 - 1) * (limit * den) ≤ num * 2 ^ 54) :
    ofQuotient s num den = infinity s :=
  dif_neg (Nat.not_lt.mpr (limit_le_nearestUnits hd h))

theorem nearestEven_ofQuotient (hfinite : (ofQuotient s num den).IsFinite) :
    NearestEven ((signed s num : ℚ) / (den * unitsInOne)) (ofQuotient s num den) := by
  have hrounds := Rounds.ofQuotient s num den hd
  constructor
  case finite => exact hfinite
  case nearest =>
    intro b hb
    exact hrounds.abs_sub_le hfinite ⟨b, hb, rfl⟩
  case even =>
    rintro _ ⟨t, v, hv, rfl⟩ hne heq
    have hlt : nearestUnits num den < limit := by
      by_contra hge
      rw [ofQuotient, dif_neg hge] at hfinite
      exact not_isFinite_infinity s hfinite
    have hden : (0 : ℚ) < den := by exact_mod_cast hd
    have hq : (0 : ℚ) ≤ num / den := by positivity
    have hzero := nearestUnits_nearest (v := 0) num hd (Nat.dvd_zero _)
    rw [Rounds.value_sub s num hd hfinite, value_finite, ← div_div, ← sub_div, abs_div,
      abs_of_pos unitsInOne_pos, div_left_inj' unitsInOne_pos.ne'] at heq
    rw [ofQuotient, dif_pos hlt] at hne ⊢
    rw [value_finite, value_finite, Ne, div_left_inj' unitsInOne_pos.ne'] at hne
    rw [Nat.cast_zero, zero_sub, abs_neg, abs_of_nonneg hq] at hzero
    obtain ⟨hdist, hother⟩ := magnitude_of_signs hq hzero heq hne
    have htwo := two_mul_granule_dvd_nearestUnits hd hv.2 hother hdist
    exact (Nat.dvd_div_iff_mul_dvd (dvd_of_mul_left_dvd htwo)).mpr (by rwa [Nat.mul_comm])

end Quotients

end BinomialLogit.Binary64
