import Mathlib.Analysis.Complex.ExponentialBounds
import DecimalCalculator.Proofs.Elementary.LogarithmAccuracy

/-!
The accuracy of the square root, and where it has a value.

* `half_ln_near`: half the logarithm of a positive number, rounded.
* `exists_sqrt`: **the square root** of a number that is not negative, and not too large, has a value,
  which is not negative.
* `sqrt_near_of_log`: **the square root** is the real one up to a relative error that comes from the
  size of the logarithm. `sqrt_near`: so it is for a number of moderate size above one.
* `sqrt_ne_zero`: **the square root** of a number between `10 ^ (-32)` and one is not zero.
* `sqrt_squares_back`: its exact square is the number up to a relative error, for sizes between
  `10 ^ (-58)` and `10 ^ 58`.
-/

namespace DecimalCalculator.Elementary

open Decimal

variable {x : Decimal}

/-! ### The exponent -/

/-- The logarithm of ten. -/
lemma log_ten_le : Real.log 10 ≤ 5 / 2 := by
  have hsquare : (10 : ℝ) ^ 2 ≤ Real.exp 5 :=
    calc (10 : ℝ) ^ 2 ≤ 2.7182818283 ^ 5 := by norm_num
      _ ≤ Real.exp 1 ^ 5 := pow_le_pow_left₀ (by norm_num) Real.exp_one_gt_d9.le 5
      _ = Real.exp 5 := by
        rw [← Real.exp_nat_mul]
        norm_num
  have hlog := (Real.log_le_iff_le_exp (by norm_num)).mpr hsquare
  rw [Real.log_pow] at hlog
  push_cast at hlog
  linarith

/-- The logarithm of a number below a power of ten. -/
lemma log_le_of_le_pow {n : ℕ} (hpos : 0 < x.toRat) (hx : x.toRat ≤ 10 ^ n) :
    Real.log x.toReal ≤ 3 * n := by
  have hpos' : 0 < x.toReal := Rat.cast_pos.mpr hpos
  have hx' : x.toReal ≤ 10 ^ n := by
    rw [toReal]
    exact_mod_cast hx
  calc Real.log x.toReal ≤ Real.log (10 ^ n) := Real.log_le_log hpos' hx'
    _ = n * Real.log 10 := Real.log_pow 10 n
    _ ≤ n * (5 / 2) := mul_le_mul_of_nonneg_left log_ten_le (Nat.cast_nonneg n)
    _ ≤ 3 * n := by linarith [Nat.cast_nonneg (α := ℝ) n]

/-- The logarithm of a number above a power of ten. -/
lemma neg_le_log_of_pow_le {n : ℕ} (hx : 1 / 10 ^ n ≤ x.toRat) : -(3 * n) ≤ Real.log x.toReal := by
  have hx' : 1 / 10 ^ n ≤ x.toReal := by
    have hcast := Rat.cast_le (K := ℝ).mpr hx
    push_cast at hcast
    exact hcast
  have hlog := Real.log_le_log (by positivity) hx'
  rw [one_div, Real.log_inv, Real.log_pow] at hlog
  have hten : n * Real.log 10 ≤ n * (5 / 2) :=
    mul_le_mul_of_nonneg_left log_ten_le (Nat.cast_nonneg n)
  linarith [Nat.cast_nonneg (α := ℝ) n]

/-- The value of one half. -/
lemma toReal_half : half.toReal = 1 / 2 := by norm_num [half, toReal, toRat, zpow_neg]

/-- Half the logarithm of a positive number, with the error of the logarithm and of one product. -/
lemma half_ln_near (hpos : 0 < x.toRat) :
    ∃ l, ln x = .ok l ∧
      |(half * l).toReal - Real.log x.toReal / 2| ≤
        26 / 10 ^ 31 + 8 / 10 ^ 32 * |Real.log x.toReal| := by
  obtain ⟨l, hl, hnear⟩ := ln_near hpos
  refine ⟨l, hl, ?_⟩
  have hproduct := near_mul_halfUnit half l
  rw [IsNear, toReal_half, abs_mul, abs_of_pos (by norm_num : (0 : ℝ) < 1 / 2), halfUnit] at hproduct
  have hsize := abs_sub_abs_le_abs_sub l.toReal (Real.log x.toReal)
  have hlog := abs_nonneg (Real.log x.toReal)
  rw [abs_le] at hproduct ⊢
  have hnear' := abs_le.mp hnear
  norm_num at hproduct hnear hnear' ⊢
  constructor <;> linarith

/-! ### The value -/

/-- The square root of a positive number is the exponential function of half the logarithm. -/
lemma sqrt_of_pos (hpos : 0 < x.toRat) {l : Decimal} (hl : ln x = .ok l) :
    sqrt x = exp (half * l) := by
  have hpositive := (isPositive_iff x).mpr hpos
  rw [sqrt, if_neg (not_isNegative_of_isPositive hpositive),
    if_neg (not_isZero_of_isPositive hpositive), hl]
  rfl

/-- The exponential function of a number far from the overflow has a value that is not negative. -/
lemma exists_exp (hx : x.toReal < 2 ^ 31) : ∃ r, exp x = .ok r ∧ 0 ≤ r.toRat := by
  have hx' : x.toRat < 2 ^ 31 := by
    rw [toReal] at hx
    exact_mod_cast hx
  obtain ⟨r, hr, hcases⟩ := exp_near hx'
  refine ⟨r, hr, ?_⟩
  rcases hcases with ⟨rfl, -⟩ | hnear
  · rw [toRat_zero]
  · have hnonneg : 0 ≤ r.toReal := by
      rw [abs_le] at hnear
      linarith [hnear.1, Real.exp_pos x.toReal]
    exact Rat.cast_nonneg.mp hnonneg

/-- **The square root** of a number that is not negative, and not too large, has a value. -/
theorem exists_sqrt {n : ℕ} (hn : n ≤ 10 ^ 9) (hnonneg : 0 ≤ x.toRat) (hx : x.toRat ≤ 10 ^ n) :
    ∃ r, sqrt x = .ok r ∧ 0 ≤ r.toRat := by
  rcases hnonneg.eq_or_lt with hzero | hpos
  · refine ⟨0, ?_, ?_⟩
    · rw [sqrt, if_neg (by rw [isNegative_iff, ← hzero]; exact lt_irrefl 0),
        if_pos ((isZero_iff x).mpr hzero.symm)]
    · rw [toRat_zero]
  · obtain ⟨l, hl, hnear⟩ := half_ln_near hpos
    rw [sqrt_of_pos hpos hl]
    refine exists_exp ?_
    have hlog := log_le_of_le_pow hpos hx
    have hn' : (n : ℝ) ≤ 1000000000 := by exact_mod_cast hn
    -- a number far below one has a logarithm far below zero, whose error is small beside it
    rcases abs_cases (Real.log x.toReal) with ⟨habs, -⟩ | ⟨habs, -⟩ <;>
    · rw [habs, abs_le] at hnear
      norm_num at hnear ⊢
      linarith

/-! ### Nearness -/

/-- The exponential function near half a logarithm is near the square root: the error of the exponent
becomes a relative one. -/
lemma exp_half_log_near {t z δ : ℝ} (hpos : 0 < t) (hδ : δ ≤ 1) (hz : |z - Real.log t / 2| ≤ δ) :
    IsNear (2 * δ) (Real.exp z) √t := by
  have hgrowth : Real.exp z = √t * Real.exp (z - Real.log t / 2) := by
    rw [Real.sqrt_eq_rpow, Real.rpow_def_of_pos hpos, ← Real.exp_add]
    congr 1
    ring
  have hfactor := Real.abs_exp_sub_one_le (hz.trans hδ)
  rw [IsNear, hgrowth, ← mul_sub_one, abs_mul, mul_comm]
  exact mul_le_mul_of_nonneg_right (by linarith) (abs_nonneg _)

/-- **The square root** of a positive number, if it is far above the threshold, has the error of the
exponential function and that of half the logarithm. -/
theorem sqrt_near_of_log {δ : ℝ} (hpos : 0 < x.toRat) (hδ : δ ≤ 1 / 10 ^ 28)
    (hlog : 26 / 10 ^ 31 + 8 / 10 ^ 32 * |Real.log x.toReal| ≤ δ) (hroot : 2 / 10 ^ 30 ≤ √x.toReal) :
    ∃ r, sqrt x = .ok r ∧ IsNear ((1 + 1 / 10 ^ 29) * (1 + 2 * δ) - 1) r.toReal √x.toReal := by
  have hpos' : 0 < x.toReal := Rat.cast_pos.mpr hpos
  obtain ⟨l, hl, hhalf⟩ := half_ln_near hpos
  have hexp := exp_half_log_near hpos' (hδ.trans (by norm_num)) (hhalf.trans hlog)
  have hlarge : 19 / 10 ^ 31 ≤ Real.exp (half * l).toReal := by
    have hbelow := hexp.mul_le_abs
    rw [abs_of_nonneg (Real.sqrt_nonneg _), abs_of_pos (Real.exp_pos _)] at hbelow
    have hfactor : 99 / 100 ≤ 1 - 2 * δ := by
      norm_num at hδ ⊢
      linarith
    have hroot' := mul_le_mul hfactor hroot (by norm_num) (by linarith)
    norm_num at hroot' hbelow ⊢
    linarith
  have hbelow : (half * l).toRat < 2 ^ 31 := by
    have hreal : (half * l).toReal < 2 ^ 31 := by
      have habove := le_abs_self (Real.log x.toReal)
      rw [abs_le] at hhalf
      norm_num at hhalf hlog hδ ⊢
      linarith
    rw [toReal] at hreal
    exact_mod_cast hreal
  rw [sqrt_of_pos hpos hl]
  obtain ⟨r, hr, ⟨-, hless⟩ | hnear⟩ := exp_near hbelow
  · norm_num at hless hlarge
    linarith
  · have hvalue : IsNear (1 / 10 ^ 29) r.toReal (Real.exp (half * l).toReal) := by
      rwa [IsNear, abs_of_pos (Real.exp_pos _)]
    exact ⟨r, hr, hvalue.trans hexp (by norm_num)⟩

/-- **The square root** of a number from one on, of a size of up to thirty digits. -/
theorem sqrt_near (hone : 1 ≤ x.toRat) (hlarge : x.toRat ≤ 10 ^ 29) :
    ∃ r, sqrt x = .ok r ∧ IsNear (3 / 10 ^ 29) r.toReal √x.toReal := by
  have hpos : 0 < x.toRat := one_pos.trans_le hone
  have hone' : 1 ≤ x.toReal := by
    rw [toReal]
    exact_mod_cast hone
  have hlog := log_le_of_le_pow hpos hlarge
  have hroot : 1 ≤ √x.toReal := Real.one_le_sqrt.mpr hone'
  obtain ⟨r, hr, hnear⟩ := sqrt_near_of_log (δ := 96 / 10 ^ 31) hpos (by norm_num) (by
    rw [abs_of_nonneg (Real.log_nonneg hone')]
    norm_num at hlog ⊢
    linarith) (le_trans (by norm_num) hroot)
  exact ⟨r, hr, hnear.mono (by norm_num)⟩

/-- **The square root** of a number between `10 ^ (-32)` and one is not zero. -/
theorem sqrt_ne_zero {v : Decimal} (hlow : 1 / 10 ^ 32 ≤ x.toRat) (hhigh : x.toRat ≤ 1)
    (h : sqrt x = .ok v) : v.toRat ≠ 0 := by
  have hpos : 0 < x.toRat := lt_of_lt_of_le (by positivity) hlow
  obtain ⟨l, hl, hhalf⟩ := half_ln_near hpos
  have hlog := neg_le_log_of_pow_le hlow
  have hlog' := log_le_of_le_pow (n := 0) hpos (by rwa [pow_zero])
  have hsize : |Real.log x.toReal| ≤ 96 := by
    rw [abs_le]
    norm_num at hlog hlog' ⊢
    exact ⟨hlog, by linarith⟩
  have hexponent : |(half * l).toReal| ≤ 49 := by
    obtain ⟨hless, hmore⟩ := abs_le.mp hsize
    rw [abs_le] at hhalf ⊢
    norm_num at hhalf ⊢
    constructor <;> linarith
  rw [abs_le] at hexponent
  -- the real exponential function is far above the threshold there
  have hlarge : 1 / 3 ^ 49 ≤ Real.exp (half * l).toReal :=
    calc 1 / (3 : ℝ) ^ 49 ≤ 1 / Real.exp 1 ^ 49 := by
          refine one_div_le_one_div_of_le (by positivity) ?_
          exact pow_le_pow_left₀ (Real.exp_pos 1).le Real.exp_one_lt_three.le 49
      _ = Real.exp (-49) := by
        rw [Real.exp_neg, ← Real.exp_nat_mul, one_div]
        norm_num
      _ ≤ Real.exp (half * l).toReal := Real.exp_le_exp.mpr hexponent.1
  rw [sqrt_of_pos hpos hl] at h
  obtain ⟨r, hr, hcases⟩ := exp_near (x := half * l) (by
    have : ((half * l).toRat : ℝ) < 2 ^ 31 := lt_of_le_of_lt hexponent.2 (by norm_num)
    exact_mod_cast this)
  obtain rfl : r = v := Except.ok.inj (hr.symm.trans h)
  rcases hcases with ⟨-, hless⟩ | hnear
  · norm_num at hless hlarge
    linarith
  · have hpositive : 0 < r.toReal := by
      rw [abs_le] at hnear
      linarith [hnear.1, Real.exp_pos (half * l).toReal]
    exact (Rat.cast_pos.mp hpositive).ne'

/-! ### Squares of roots -/

/-- **The square root squares back**: over 116 powers of ten the exact square of the root is the number,
up to a relative error of `10 ^ (-28)`. -/
theorem sqrt_squares_back (hlow : 1 / 10 ^ 58 ≤ x.toRat) (hhigh : x.toRat ≤ 10 ^ 58) :
    ∃ r, sqrt x = .ok r ∧ |r.toRat * r.toRat - x.toRat| ≤ 1 / 10 ^ 28 * x.toRat := by
  have hpos : 0 < x.toRat := lt_of_lt_of_le (by positivity) hlow
  have hpos' : 0 < x.toReal := Rat.cast_pos.mpr hpos
  have hlog : |Real.log x.toReal| ≤ 174 := by
    have habove := neg_le_log_of_pow_le hlow
    have hbelow := log_le_of_le_pow hpos hhigh
    rw [abs_le]
    norm_num at habove hbelow
    exact ⟨habove, hbelow⟩
  have hroot : 1 / 10 ^ 29 ≤ √x.toReal := by
    refine Real.le_sqrt_of_sq_le ?_
    have hcast := Rat.cast_le (K := ℝ).mpr hlow
    norm_num [toReal] at hcast ⊢
    exact hcast
  obtain ⟨r, hr, hnear⟩ := sqrt_near_of_log (δ := 166 / 10 ^ 31) hpos (by norm_num)
    (by norm_num at hlog ⊢; linarith) (le_trans (by norm_num) hroot)
  -- twice the error of the root, which is below 44 units of its thirtieth digit
  have hsquare := (hnear.mul hnear).mono (δ := 1 / 10 ^ 28) (by norm_num)
  rw [IsNear, Real.mul_self_sqrt hpos'.le, abs_of_pos hpos', toReal, toReal] at hsquare
  refine ⟨r, hr, (Rat.cast_le (K := ℝ)).mp ?_⟩
  push_cast
  exact hsquare

/-- At an even power of ten far below one. -/
theorem sqrt_squares_back_small :
    (1 : ℚ) / 10 ^ 58 ≤ (⟨1, 58⟩ : Decimal).toRat ∧ (⟨1, 58⟩ : Decimal).toRat ≤ 10 ^ 58 ∧
      ∃ r, sqrt ⟨1, 58⟩ = .ok r ∧
        |r.toRat * r.toRat - (⟨1, 58⟩ : Decimal).toRat| ≤ 1 / 10 ^ 28 * (⟨1, 58⟩ : Decimal).toRat := by
  have hlow : (1 : ℚ) / 10 ^ 58 ≤ (⟨1, 58⟩ : Decimal).toRat := by norm_num [toRat, zpow_neg]
  have hhigh : (⟨1, 58⟩ : Decimal).toRat ≤ 10 ^ 58 := by norm_num [toRat, zpow_neg]
  exact ⟨hlow, hhigh, sqrt_squares_back hlow hhigh⟩

end DecimalCalculator.Elementary
