import DecimalCalculator.Proofs.Elementary.Flushed

/-!
The inverse hyperbolic tangent and cotangent, as halves of logarithms.

* `ln_of_near_one`: **the logarithm near one** is the distance to one, less half its square.
* `half_ln_isFlushed_iff`: half of it is left below the threshold exactly for some counts of units.
* `isNearlyTwo_iff`: a number is nearly two exactly if rounding it counts such units.
* `arctanh_isFlushed_iff`, `arccoth_isFlushed_iff`: **inverse tangent and cotangent** are left below the
  threshold exactly where their quotient is nearly two (`IsNearlyTwo`).
-/

namespace DecimalCalculator.Elementary

open Decimal

variable {x y v : Decimal}

/-! ### Logarithms near one -/

/-- Near one, nothing is taken out of a logarithm. -/
lemma reduction_near_one (hlow : lnLower.toRat ≤ x.toRat) (hhigh : x.toRat ≤ lnUpper.toRat) :
    Reduction.of x = ⟨x, 0⟩ := by
  have hdivide : ∀ n, Reduction.divide n ⟨x, 0⟩ = ⟨x, 0⟩ := by
    intro n
    cases n with
    | zero => rfl
    | succ n => rw [Reduction.divide, if_neg (by rw [lt_iff]; exact not_lt.mpr hhigh)]
  have hmultiply : ∀ n, Reduction.multiply n ⟨x, 0⟩ = ⟨x, 0⟩ := by
    intro n
    cases n with
    | zero => rfl
    | succ n => rw [Reduction.multiply, if_neg (by rw [lt_iff]; exact not_lt.mpr hlow)]
  rw [Reduction.of, hdivide, hmultiply]

/-- **The logarithm near one** is the distance to one, less half its square up to two roundings. -/
theorem ln_of_near_one {u : ℚ} (hx : x.toRat = 1 + u) (hu : u ≠ 0) (hsmall : |u| ≤ 1 / 10 ^ 15) :
    ∃ s t, ln x = .ok (flush s) ∧ s.toRat = u - t ∧ 2 / 5 * u ^ 2 ≤ t ∧ t ≤ 3 / 5 * u ^ 2 := by
  obtain ⟨hlower, hlower'⟩ := lnLower_bounds
  obtain ⟨hupper, hupper'⟩ := lnUpper_bounds
  rw [abs_le] at hsmall
  norm_num at hsmall
  have hreduction := reduction_near_one (x := x) (by linarith) (by linarith)
  have hrest : (x - 1).toRat = u := by rw [toRat_sub, toRat_one, hx, add_sub_cancel_left]
  have hsquare_le : u ^ 2 ≤ 1 / 10 ^ 30 := by
    norm_num
    nlinarith
  -- the second term of the series, with its two roundings
  set square := (x - 1) * -(x - 1) with hsquare
  have hround := abs_roundSignificant_sub_le workingDigits_pos ((x - 1).toRat * (-(x - 1)).toRat)
  have hexact : (x - 1).toRat * (-(x - 1)).toRat = -u ^ 2 := by
    rw [toRat_neg, hrest]
    ring
  rw [← toRat_mul, ← hsquare, hexact, abs_neg, abs_of_nonneg (sq_nonneg u), abs_le] at hround
  norm_num [workingDigits] at hround
  have hnonpos : square.toRat / (2 : ℕ) ≤ 0 := by
    push_cast
    linarith [sq_nonneg u]
  have hround' := abs_roundSignificant_sub_le workingDigits_pos (square.toRat / (2 : ℕ))
  rw [← toRat_dividedBy, abs_of_nonpos hnonpos, abs_le] at hround'
  norm_num [workingDigits] at hround'
  have hterm_ge : 2 / 5 * u ^ 2 ≤ -(square.dividedBy 2).toRat := by linarith [sq_nonneg u]
  have hterm_le : -(square.dividedBy 2).toRat ≤ 3 / 5 * u ^ 2 := by linarith [sq_nonneg u]
  have hlast : (square.dividedBy (0 + 2)).abs < threshold := by
    rw [lt_iff, toRat_abs, toRat_threshold, abs_lt]
    norm_num at hsquare_le ⊢
    constructor <;> linarith [sq_nonneg u]
  have hsum : (lnSeries (x - 1)).sum = (x - 1) + square.dividedBy (0 + 2) := Series.sum_eq_of_lt hlast
  refine ⟨(lnSeries (x - 1)).sum + ofInt 0, -(square.dividedBy 2).toRat, ?_, ?_, hterm_ge, hterm_le⟩
  · have hone : x.toRat ≠ 1 := by
      rw [hx]
      simpa using hu
    rw [ln_of_pos (by linarith) hone, hreduction]
  · rw [hsum, toRat_add, toRat_add, hrest, toRat_ofInt]
    push_cast
    ring

/-! ### Half logarithms -/

variable {l : Decimal}

/-- Half a number, rounded. -/
lemma abs_half_mul (l : Decimal) :
    |(half * l).toRat| = roundSignificant workingDigits (|l.toRat| / 2) := by
  have hhalf : half.toRat = 1 / 2 := by norm_num [half, toRat, zpow_neg]
  rw [toRat_mul, hhalf, abs_roundSignificant, abs_mul, abs_of_pos (by norm_num), one_div_mul_eq_div]

/-- Half a flushed number is flushed if the number was below the threshold before. -/
lemma isFlushed_half_of_lt (h : |y.toRat| < 1 / 10 ^ 30) : IsFlushed (half * flush y) := by
  left
  rw [flush_of_lt h, toRat_mul, toRat_zero, mul_zero, roundSignificant_zero]

/-- Half a number of twice the threshold is flushed. -/
lemma isFlushed_half_of_le (h : 2 / 10 ^ 30 ≤ |y.toRat|) : IsFlushed (half * flush y) := by
  rw [flush_of_le (le_trans (by norm_num) h)]
  refine isFlushed_of_round (abs_half_mul y) ?_
  norm_num at h ⊢
  linarith

/-- Half a number between them is not flushed. -/
lemma not_isFlushed_half (hlow : 1 / 10 ^ 30 ≤ |y.toRat|)
    (hhigh : |y.toRat| ≤ 2 / 10 ^ 30 - 1 / 10 ^ 61) : ¬ IsFlushed (half * flush y) := by
  rw [flush_of_le hlow]
  refine not_isFlushed_of_round (abs_half_mul y) (half_pos (lt_of_lt_of_le (by positivity) hlow)) ?_
  norm_num at hhigh ⊢
  linarith

/-- Half the logarithm a little above one is left below the threshold for the counts of units of
`10 ^ (-31)` from eleven to twenty. -/
lemma half_ln_above {z : ℤ} {t : ℚ} (hz : 0 < z) (hy : y.toRat = z / 10 ^ 31 - t)
    (ht : 2 / 5 * ((z : ℚ) / 10 ^ 31) ^ 2 ≤ t) (ht' : t ≤ 1 / 10 ^ 15 * ((z : ℚ) / 10 ^ 31)) :
    IsFlushed (half * flush y) ↔ ¬ (11 ≤ z ∧ z ≤ 20) := by
  have hone : (1 : ℚ) ≤ z := by exact_mod_cast hz
  have hsize : |y.toRat| = z / 10 ^ 31 - t := by
    rw [hy, abs_of_nonneg]
    norm_num at ht' ⊢
    linarith
  norm_num [div_pow] at ht ht'
  rcases lt_or_ge z 11 with hless | hmore
  · have hsquare : (z : ℚ) ≤ (z : ℚ) ^ 2 := le_self_pow₀ hone (by norm_num)
    have hten : (z : ℚ) ≤ 10 := by exact_mod_cast Int.lt_add_one_iff.mp hless
    refine iff_of_true (isFlushed_half_of_lt ?_) (by omega)
    rw [hsize]
    norm_num
    linarith
  · have heleven : (11 : ℚ) ≤ z := by exact_mod_cast hmore
    have hsquare : 11 * (z : ℚ) ≤ (z : ℚ) ^ 2 := by
      rw [pow_two]
      exact mul_le_mul_of_nonneg_right heleven (by linarith)
    rcases le_or_gt z 20 with hle | hgt
    · have htwenty : (z : ℚ) ≤ 20 := by exact_mod_cast hle
      refine iff_of_false (not_isFlushed_half ?_ ?_) (by omega) <;>
      · rw [hsize]
        norm_num
        linarith
    · have htwentyone : (21 : ℚ) ≤ z := by exact_mod_cast hgt
      refine iff_of_true (isFlushed_half_of_le ?_) (by omega)
      rw [hsize]
      norm_num
      linarith

/-- Half the logarithm a little below one is left below the threshold for those from ten to
nineteen. -/
lemma half_ln_below {z : ℤ} {t : ℚ} (hz : z < 0) (hy : y.toRat = z / 10 ^ 31 - t) (ht : 0 ≤ t)
    (ht' : t ≤ 1 / 10 ^ 15 * -((z : ℚ) / 10 ^ 31)) :
    IsFlushed (half * flush y) ↔ ¬ (-19 ≤ z ∧ z ≤ -10) := by
  have hone : (z : ℚ) ≤ -1 := by exact_mod_cast Int.le_sub_one_of_lt hz
  have hsize : |y.toRat| = -(z / 10 ^ 31) + t := by
    rw [hy, abs_of_nonpos]
    · ring
    · norm_num
      linarith
  norm_num at ht'
  rcases lt_or_ge (-10) z with hmore | hless
  · have hnine : (-9 : ℚ) ≤ z := by exact_mod_cast hmore
    refine iff_of_true (isFlushed_half_of_lt ?_) (by omega)
    rw [hsize]
    norm_num
    linarith
  · have hten : (z : ℚ) ≤ -10 := by exact_mod_cast hless
    rcases le_or_gt (-19) z with hge | hlt
    · have hnineteen : (-19 : ℚ) ≤ z := by exact_mod_cast hge
      refine iff_of_false (not_isFlushed_half ?_ ?_) (by omega) <;>
      · rw [hsize]
        norm_num
        linarith
    · have htwenty : (z : ℚ) ≤ -20 := by exact_mod_cast Int.le_sub_one_of_lt hlt
      refine iff_of_true (isFlushed_half_of_le ?_) (by omega)
      rw [hsize]
      norm_num
      linarith

/-- **Half the logarithm near one** is left below the threshold exactly for these counts of units. -/
theorem half_ln_isFlushed_iff {z : ℤ} (hx : x.toRat = 1 + z / 10 ^ 31)
    (hsmall : |(z : ℚ) / 10 ^ 31| ≤ 1 / 10 ^ 15) (hl : ln x = .ok l) :
    IsFlushed (half * l) ↔ ¬ (11 ≤ z ∧ z ≤ 20 ∨ -19 ≤ z ∧ z ≤ -10) := by
  rcases eq_or_ne z 0 with rfl | hz
  · have hone : x.toRat = 1 := by rw [hx]; simp
    obtain rfl := Except.ok.inj ((ln_of_eq_one hone).symm.trans hl)
    refine iff_of_true (Or.inl ?_) (by omega)
    rw [toRat_mul, toRat_zero, mul_zero, roundSignificant_zero]
  have hne : (z : ℚ) / 10 ^ 31 ≠ 0 := div_ne_zero (Int.cast_ne_zero.mpr hz) (by positivity)
  obtain ⟨s, t, hvalue, hs, ht, ht'⟩ := ln_of_near_one hx hne hsmall
  obtain rfl : l = flush s := Except.ok.inj (hl.symm.trans hvalue)
  have hrelative : t ≤ 1 / 10 ^ 15 * |(z : ℚ) / 10 ^ 31| := by
    have hsquare : ((z : ℚ) / 10 ^ 31) ^ 2 ≤ 1 / 10 ^ 15 * |(z : ℚ) / 10 ^ 31| := by
      rw [← sq_abs, pow_two]
      exact mul_le_mul_of_nonneg_right hsmall (abs_nonneg _)
    linarith [sq_nonneg ((z : ℚ) / 10 ^ 31)]
  rcases lt_or_gt_of_ne hz with hneg | hpos
  · rw [abs_of_neg (div_neg_of_neg_of_pos (Int.cast_lt_zero.mpr hneg) (by positivity))] at hrelative
    rw [half_ln_below hneg hs (le_trans (by positivity) ht) hrelative]
    omega
  · rw [abs_of_pos (div_pos (Int.cast_pos.mpr hpos) (by positivity))] at hrelative
    rw [half_ln_above hpos hs ht hrelative]
    omega

/-- The logarithm of a number away from one is as far from zero. -/
lemma le_abs_log {t : ℝ} (hpos : 0 < t) (hfar : 1 / 10 ^ 15 ≤ |t - 1|) : 1 / 10 ^ 16 ≤ |Real.log t| := by
  rcases le_abs.mp hfar with habove | hbelow
  · have hlower := Real.one_sub_inv_le_log_of_pos (x := 1 + 1 / 10 ^ 15) (by norm_num)
    have hmono := Real.log_le_log (x := 1 + 1 / 10 ^ 15) (y := t) (by norm_num) (by linarith)
    refine le_trans ?_ (le_abs_self _)
    norm_num at hlower hmono ⊢
    linarith
  · have hupper := Real.log_le_sub_one_of_pos hpos
    refine le_trans ?_ (neg_le_abs _)
    norm_num at hbelow ⊢
    linarith

/-- Half a logarithm of a number away from one is flushed. -/
lemma half_ln_isFlushed_of_far {u : ℚ} (hx : x.toRat = 1 + u) (hfar : 1 / 10 ^ 15 ≤ |u|)
    (hl : ln x = .ok l) : IsFlushed (half * l) := by
  have hpos : 0 < x.toRat := by
    by_contra hle
    rw [ln_of_nonpos (not_lt.mp hle)] at hl
    exact absurd hl (by simp)
  obtain ⟨r, hr, hnear⟩ := ln_near hpos
  obtain rfl : l = r := Except.ok.inj (hl.symm.trans hr)
  have hlog : 1 / 10 ^ 16 ≤ |Real.log x.toReal| := by
    refine le_abs_log (Rat.cast_pos.mpr hpos) ?_
    have hcast := Rat.cast_le (K := ℝ).mpr hfar
    rw [toReal, hx]
    push_cast at hcast ⊢
    rwa [add_sub_cancel_left]
  have hsize : (2 / 10 ^ 30 : ℝ) ≤ |l.toReal| := by
    have hdist := abs_sub_abs_le_abs_sub (Real.log x.toReal) l.toReal
    rw [abs_sub_comm] at hdist
    norm_num at hlog hnear ⊢
    linarith
  have hrat : 2 / 10 ^ 30 ≤ |l.toRat| := by
    rw [toReal] at hsize
    refine Rat.cast_le (K := ℝ).mp ?_
    push_cast
    exact hsize
  have hkept := flush_of_le (x := l) (le_trans (by norm_num) hrat)
  rw [← hkept]
  exact isFlushed_half_of_le hrat

/-! ### The inverse hyperbolic tangent -/

/-- A quotient whose logarithm, of the quotient less one, is left below the threshold when it is
halved. -/
def IsNearlyTwo (q : ℚ) : Prop :=
  21 / (2 * 10 ^ 31) ≤ q - 2 ∧ q - 2 < 41 / (2 * 10 ^ 31) ∨
    -(39 / (2 * 10 ^ 31)) ≤ q - 2 ∧ q - 2 < -(19 / (2 * 10 ^ 31))

/-- A number is nearly two exactly if rounding it counts a few units above or below two: each end of the
two ranges is a middle between two neighbours. -/
lemma isNearlyTwo_iff {q : ℚ} (hq : 0 < q) {z : ℤ}
    (hround : roundSignificant workingDigits q = 2 + z / 10 ^ 31) :
    IsNearlyTwo q ↔ 11 ≤ z ∧ z ≤ 20 ∨ -19 ≤ z ∧ z ≤ -10 := by
  have hcut : ∀ k : ℤ, -100 ≤ k → k ≤ 100 → (k < z ↔ (k + 1 / 2) / 10 ^ 31 ≤ q - 2) := by
    intro k hlow hhigh
    obtain ⟨m, hm⟩ := Int.eq_ofNat_of_zero_le (show 0 ≤ 2 * 10 ^ 31 + k by omega)
    have hmq : (m : ℚ) = 2 * 10 ^ 31 + k := by exact_mod_cast hm.symm
    have hmiddle := succ_div_le_round_iff (n := m) hq (by omega) (by omega)
    have hunits : roundSignificant workingDigits q = (2 * 10 ^ 31 + z) / 10 ^ 31 := by
      rw [hround]
      ring
    rw [hunits, hmq, div_le_div_iff_of_pos_right (by positivity)] at hmiddle
    have hcount : k < z ↔ (2 * 10 ^ 31 + k + 1 : ℚ) ≤ 2 * 10 ^ 31 + z := by
      rw [add_assoc, add_le_add_iff_left, ← Int.add_one_le_iff]
      exact_mod_cast Iff.rfl
    rw [hcount, hmiddle, le_sub_iff_add_le]
    ring_nf
  have hranges : 11 ≤ z ∧ z ≤ 20 ∨ -19 ≤ z ∧ z ≤ -10 ↔
      10 < z ∧ ¬ 20 < z ∨ -20 < z ∧ ¬ -10 < z := by omega
  rw [hranges, hcut 10 (by norm_num) (by norm_num), hcut 20 (by norm_num) (by norm_num),
    hcut (-20) (by norm_num) (by norm_num), hcut (-10) (by norm_num) (by norm_num), not_le, not_le,
    IsNearlyTwo]
  norm_num

/-- A number that is rounded away from two is not nearly two. -/
lemma not_isNearlyTwo_of_far {q : ℚ} (hq : 0 < q)
    (hfar : 1 / 10 ^ 15 ≤ |roundSignificant workingDigits q - 2|) : ¬ IsNearlyTwo q := by
  have hround := abs_roundSignificant_sub_le workingDigits_pos q
  rw [abs_of_pos hq, abs_le] at hround
  rw [le_abs] at hfar
  norm_num [workingDigits] at hround hfar
  rw [IsNearlyTwo]
  norm_num
  constructor
  · intro _
    rcases hfar with h | h <;> linarith
  · intro _
    rcases hfar with h | h <;> linarith

/-- What the inverse hyperbolic tangent computes. -/
lemma arctanh_spec (h : arctanh x = .ok v) :
    x.toRat < 1 ∧ ∃ l, ln (ofInt 2 / (1 - x) - 1) = .ok l ∧ v = half * l := by
  rw [arctanh] at h
  split at h
  · exact absurd h (by simp)
  · next hsmall =>
    rw [le_iff, toRat_one, toRat_abs, not_le, abs_lt] at hsmall
    obtain ⟨quotient, hquotient, h⟩ := bind_eq_ok_iff.mp h
    obtain ⟨-, rfl⟩ := quotientOr_eq_ok_iff.mp hquotient
    obtain ⟨l, hl, h⟩ := bind_eq_ok_iff.mp h
    exact ⟨hsmall.2, l, hl, (Except.ok.inj h).symm⟩

/-- **The inverse hyperbolic tangent** is left below the threshold exactly where its quotient is nearly
two. -/
theorem arctanh_isFlushed_iff (h : arctanh x = .ok v) :
    IsFlushed v ↔ ¬ IsNearlyTwo (2 / (1 - x.toRat)) := by
  obtain ⟨hless, l, hl, rfl⟩ := arctanh_spec h
  set q : ℚ := 2 / (1 - x.toRat) with hq
  have hqpos : 0 < q := div_pos (by norm_num) (by linarith)
  have hvalue : (ofInt 2 / (1 - x) - 1).toRat = 1 + (roundSignificant workingDigits q - 2) := by
    rw [toRat_sub, toRat_one, toRat_div, toRat_sub, toRat_one, toRat_ofInt]
    push_cast
    ring
  rcases lt_or_ge |roundSignificant workingDigits q - 2| (1 / 10 ^ 15) with hnear | hfar
  · obtain ⟨hlow, hhigh⟩ := abs_lt.mp hnear
    norm_num at hlow hhigh
    obtain ⟨n, hn⟩ := exists_mantissa (q := q) (by linarith) (by linarith)
    have hunits : roundSignificant workingDigits q = 2 + (n - 2 * 10 ^ 31 : ℤ) / 10 ^ 31 := by
      rw [hn]
      push_cast
      ring
    rw [hunits, add_sub_cancel_left] at hvalue hnear
    rw [half_ln_isFlushed_iff hvalue hnear.le hl, isNearlyTwo_iff hqpos hunits]
  · exact iff_of_true (half_ln_isFlushed_of_far hvalue hfar hl) (not_isNearlyTwo_of_far hqpos hfar)

/-- **The inverse hyperbolic cotangent** is left below the threshold where that of the rounded
reciprocal is nearly two. -/
theorem arccoth_isFlushed_iff (h : arccoth x = .ok v) :
    IsFlushed v ↔ ¬ IsNearlyTwo (2 / (1 - (1 / x).toRat)) := by
  rw [arccoth] at h
  split at h
  · exact absurd h (by simp)
  · obtain ⟨reciprocal, hreciprocal, h⟩ := bind_eq_ok_iff.mp h
    obtain ⟨-, rfl⟩ := quotientOr_eq_ok_iff.mp hreciprocal
    exact arctanh_isFlushed_iff h

end DecimalCalculator.Elementary
