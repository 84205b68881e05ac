import DecimalCalculator.Proofs.Elementary.Division

/-!
Where the inverse hyperbolic functions are undefined.

* `reciprocal_neighbours`: how far from one a reciprocal is after rounding.
* `arccosh_eq_error_iff`, `arcsech_eq_error_iff`: **these two** fail exactly outside their domains.
* `arctanh_eq_error_iff`, `arccoth_eq_error_iff`: **these two** also fail inside, near the ends of their
  domains: there a quotient is rounded to one.
* `arcsinh_eq_error_iff`, `arccsch_eq_error_iff`: **these two** fail where the root does not exceed the
  size of a negative argument. `exists_arcsinh`: that can only be far below zero.
* `inverseHyperbolic_eq_error_iff`: **all six** together.
* `not_forall_inverseHyperbolic_defined`: there are failures inside the domains.
-/

namespace DecimalCalculator.Elementary

open Decimal

variable {x : Decimal} {failure : Failure} {n : ℕ}

/-- A number is zero, or it has a size between two powers of ten. -/
def HasMagnitudeWithin (n : ℕ) (x : Decimal) : Prop :=
  x.toRat = 0 ∨ 1 / 10 ^ n ≤ |x.toRat| ∧ |x.toRat| ≤ 10 ^ n

/-- The size of such a number. -/
lemma HasMagnitudeWithin.abs_le (hx : HasMagnitudeWithin n x) : |x.toRat| ≤ 10 ^ n := by
  rcases hx with hzero | ⟨-, hsize⟩
  · rw [hzero, abs_zero]
    positivity
  · exact hsize

/-- A larger bound is one too. -/
lemma HasMagnitudeWithin.mono {m : ℕ} (hx : HasMagnitudeWithin m x) (hm : m ≤ n) :
    HasMagnitudeWithin n x := by
  have hpow : (10 : ℚ) ^ m ≤ 10 ^ n := pow_le_pow_right₀ (by norm_num) hm
  refine hx.imp_right fun h => ⟨?_, h.2.trans hpow⟩
  exact (one_div_le_one_div_of_le (by positivity) hpow).trans h.1

/-! ### Steps -/

/-- **The logarithm** fails exactly for numbers that are not positive. -/
lemma ln_eq_error_iff : ln x = .error failure ↔ failure = .lnUndefined ∧ x.toRat ≤ 0 := by
  rcases le_or_gt x.toRat 0 with hx | hpos
  · rw [ln_of_nonpos hx]
    simp [hx, eq_comm]
  · obtain ⟨r, hr, -⟩ := ln_near hpos
    simp [hr, hpos]

/-- A square is not negative. -/
lemma mul_self_toRat_nonneg (x : Decimal) : 0 ≤ (x * x).toRat :=
  nonneg_of_abs_sub_le (mul_self_nonneg _) (abs_mul_sub_le x x)

/-- The square of a number up to a power of ten. -/
lemma mul_self_toRat_le (hx : |x.toRat| ≤ 10 ^ n) : (x * x).toRat ≤ 10 ^ (2 * n) := by
  have hsquare : x.toRat * x.toRat ≤ 10 ^ ((2 * n : ℕ) : ℤ) := by
    rw [← abs_mul_abs_self, zpow_natCast, two_mul, pow_add]
    exact mul_le_mul hx hx (abs_nonneg _) (by positivity)
  have := timesRounded_le workingDigits_pos (mul_self_nonneg _) hsquare
  rwa [zpow_natCast] at this

/-- The square of a number from one on. -/
lemma one_le_mul_self (hx : 1 ≤ x.toRat) : 1 ≤ (x * x).toRat := by
  have hsquare : (10 : ℚ) ^ (0 : ℤ) ≤ x.toRat * x.toRat := by
    rw [zpow_zero]
    exact one_le_mul_of_one_le_of_one_le hx hx
  have := le_timesRounded workingDigits_pos hsquare
  rwa [zpow_zero] at this

/-- A reciprocal, rounded. -/
lemma abs_reciprocal (hx : x.toRat ≠ 0) :
    |(1 / x).toRat| = roundSignificant workingDigits (1 / |x.toRat|) := by
  rw [toRat_div_of_ne_zero (by simp) hx, abs_roundSignificant, toRat_one, abs_div, abs_one]

/-- The reciprocal of a negative number is negative. -/
lemma reciprocal_neg (hx : x.toRat < 0) : (1 / x).toRat < 0 := by
  have hquotient : 1 / x.toRat < 0 := one_div_neg.mpr hx
  have hnear := abs_div_sub_le 1 hx.ne
  rw [toRat_one, abs_of_neg hquotient, relativeError, abs_le] at hnear
  linarith [hnear.2]

/-- The reciprocal of a positive number is not negative. -/
lemma reciprocal_nonneg (hx : 0 < x.toRat) : 0 ≤ (1 / x).toRat :=
  nonneg_of_abs_sub_le (by rw [toRat_one]; positivity) (abs_div_sub_le 1 hx.ne')

/-- The reciprocal of a number from a power of ten on. -/
lemma abs_reciprocal_le (hx : 1 / 10 ^ n ≤ |x.toRat|) : |(1 / x).toRat| ≤ 10 ^ n := by
  have hpos : 0 < |x.toRat| := lt_of_lt_of_le (by positivity) hx
  rw [abs_reciprocal (abs_pos.mp hpos), ← zpow_natCast]
  refine roundSignificant_le workingDigits_pos (one_div_pos.mpr hpos) ?_
  rwa [zpow_natCast, one_div_le hpos (by positivity)]

/-- **Reciprocals near one**: the middle between two neighbouring numbers decides to which of them a
reciprocal is rounded. -/
theorem reciprocal_neighbours (hx : x.toRat ≠ 0) {d : ℕ} (hd : d < 10 ^ 31) :
    (1 / |x.toRat| < 1 - (d + 1 / 2) / 10 ^ 32 ∧ |(1 / x).toRat| ≤ 1 - (d + 1) / 10 ^ 32) ∨
      (1 - (d + 1 / 2) / 10 ^ 32 ≤ 1 / |x.toRat| ∧ 1 - d / 10 ^ 32 ≤ |(1 / x).toRat|) := by
  have hcast : ((10 ^ 32 - 1 - d : ℕ) : ℚ) = 10 ^ 32 - 1 - d := by
    rw [Nat.cast_sub (by omega), Nat.cast_sub (by norm_num)]
    norm_num
  have hround := roundSignificant_neighbours (n := 10 ^ 32 - 1 - d)
    (k := -32) (one_div_pos.mpr (abs_pos.mpr hx)) workingDigits_pos (by norm_num [workingDigits]; omega)
    (by norm_num [workingDigits]; omega)
  rw [← abs_reciprocal hx, hcast] at hround
  refine hround.imp (fun h => ⟨h.1.trans_le (le_of_eq ?_), h.2.trans (le_of_eq ?_)⟩)
    fun h => ⟨(le_of_eq ?_).trans h.1, (le_of_eq ?_).trans h.2⟩ <;>
  · norm_num [zpow_neg]
    ring

/-! ### Sine and cosecant -/

/-- The inverse hyperbolic sine is the logarithm of the argument and a root together. -/
lemma arcsinh_eq (hn : n ≤ 10 ^ 8) (hx : |x.toRat| ≤ 10 ^ n) :
    ∃ root, sqrt (x * x + 1) = .ok root ∧ 0 ≤ root.toRat ∧ arcsinh x = ln (x + root) := by
  have hvalue : (x * x + 1).toRat = (x * x).toRat + 1 := by rw [toRat_add, toRat_one]
  have hnonneg := mul_self_toRat_nonneg x
  have hsquare := mul_self_toRat_le hx
  have hone : (1 : ℚ) ≤ 10 ^ (2 * n) := one_le_pow₀ (by norm_num)
  obtain ⟨root, hroot, hsign⟩ := exists_sqrt (x := x * x + 1) (n := 2 * n + 1) (by omega)
    (by rw [hvalue]; linarith) (by rw [hvalue, pow_succ]; linarith)
  exact ⟨root, hroot, hsign, by rw [arcsinh, hroot]; rfl⟩

/-- **The inverse hyperbolic sine** fails exactly where the root does not exceed the size of a
negative argument. -/
theorem arcsinh_eq_error_iff (hn : n ≤ 10 ^ 8) (hx : |x.toRat| ≤ 10 ^ n) :
    arcsinh x = .error failure ↔
      failure = .lnUndefined ∧ ∃ root, sqrt (x * x + 1) = .ok root ∧ x.toRat + root.toRat ≤ 0 := by
  obtain ⟨root, hroot, -, hvalue⟩ := arcsinh_eq hn hx
  rw [hvalue, ln_eq_error_iff, toRat_add, hroot]
  simp

/-- The root exceeds the size of the argument, if the errors of both are small beside the
difference. -/
lemma lt_root {t y r : ℝ} (ht : 0 ≤ t) (ht' : t ≤ 10 ^ 14) (hy : t ^ 2 * (1 - 1 / 10 ^ 31) + 1 ≤ y)
    (hr : IsNear (3 / 10 ^ 29) r √y) : t < r := by
  have hsquare : t ^ 2 ≤ (10 ^ 14) ^ 2 := pow_le_pow_left₀ ht ht' 2
  have hypos : 0 ≤ y := by nlinarith [sq_nonneg t]
  rw [IsNear, abs_of_nonneg (Real.sqrt_nonneg y), abs_le] at hr
  by_contra hless
  have hroot : (1 - 3 / 10 ^ 29) * √y ≤ t := by linarith [hr.1]
  have hroot' : ((1 - 3 / 10 ^ 29) * √y) ^ 2 ≤ t ^ 2 :=
    pow_le_pow_left₀ (mul_nonneg (by norm_num) (Real.sqrt_nonneg y)) hroot 2
  rw [mul_pow, Real.sq_sqrt hypos] at hroot'
  norm_num at hroot' hy hsquare
  linarith

/-- **The inverse hyperbolic sine** has a value unless the argument is far below zero. -/
theorem exists_arcsinh (hn : n ≤ 10 ^ 8) (hx : |x.toRat| ≤ 10 ^ n) (hlow : -10 ^ 14 ≤ x.toRat) :
    ∃ r, arcsinh x = .ok r := by
  obtain ⟨root, hroot, hsign, hvalue⟩ := arcsinh_eq hn hx
  suffices hpos : 0 < (x + root).toRat by
    obtain ⟨r, hr, -⟩ := ln_near hpos
    exact ⟨r, by rw [hvalue, hr]⟩
  rw [toRat_add]
  rcases lt_or_ge 0 x.toRat with hpos | hneg
  · linarith
  have hargument : (x * x + 1).toRat = (x * x).toRat + 1 := by rw [toRat_add, toRat_one]
  have hsize : x.toRat ^ 2 ≤ (10 ^ 14) ^ 2 := sq_le_sq' hlow (hneg.trans (by positivity))
  obtain ⟨hsquare, hsquare'⟩ := bounds_of_abs_sub_le (mul_self_nonneg _) (abs_mul_sub_le x x)
  rw [← pow_two, relativeError] at hsquare hsquare'
  obtain ⟨root', hroot', hnear⟩ := sqrt_near (x := x * x + 1)
    (by rw [hargument]; linarith [mul_self_toRat_nonneg x])
    (by rw [hargument]; norm_num at hsize hsquare' ⊢; linarith)
  obtain rfl : root = root' := Except.ok.inj (hroot.symm.trans hroot')
  have hlt : ((-x.toRat : ℚ) : ℝ) < root.toReal := by
    refine lt_root ?_ ?_ ?_ hnear
    · exact_mod_cast neg_nonneg.mpr hneg
    · exact_mod_cast neg_le.mp hlow
    · have hreal : x.toRat ^ 2 * (1 - 1 / 10 ^ 31) + 1 ≤ (x * x + 1).toRat := by
        rw [hargument]
        linarith
      have hcast := Rat.cast_le (K := ℝ).mpr hreal
      push_cast at hcast
      rw [toReal, Rat.cast_neg, neg_sq]
      exact hcast
  have : -x.toRat < root.toRat := Rat.cast_lt.mp hlt
  linarith

/-- A root beside a number keeps its sum with it in the domain of the logarithm. -/
lemma ln_sum {root : Decimal} (hx : 0 < x.toRat) (hroot : 0 ≤ root.toRat) :
    ∃ r, ln (x + root) = .ok r := by
  obtain ⟨r, hr, -⟩ := ln_near (x := x + root) (by rw [toRat_add]; linarith)
  exact ⟨r, hr⟩

/-- **The inverse hyperbolic cosecant** fails at zero, and where the inverse hyperbolic sine of the
reciprocal does. -/
theorem arccsch_eq_error_iff (hn : n ≤ 10 ^ 8) (hx : HasMagnitudeWithin n x) :
    arccsch x = .error failure ↔
      (failure = .arccschUndefined ∧ x.toRat = 0) ∨
        (failure = .lnUndefined ∧ x.toRat ≠ 0 ∧
          ∃ root, sqrt (1 / x * (1 / x) + 1) = .ok root ∧ (1 / x).toRat + root.toRat ≤ 0) := by
  rcases hx with hzero | ⟨hsize, -⟩
  · rw [arccsch, if_pos ((isZero_iff x).mpr hzero)]
    simp [hzero, eq_comm]
  · have hne : x.toRat ≠ 0 := abs_pos.mp (lt_of_lt_of_le (by positivity) hsize)
    rw [arccsch, if_neg (by rwa [isZero_iff]), quotientOrAbort_eq 1 hne]
    change arcsinh (1 / x) = _ ↔ _
    rw [arcsinh_eq_error_iff hn (abs_reciprocal_le hsize)]
    simp [hne]

/-- **The inverse hyperbolic cosecant** has a value unless the argument is negative and very small. -/
theorem exists_arccsch (hn : n ≤ 10 ^ 8) (hsize : 1 / 10 ^ n ≤ |x.toRat|)
    (hx : 0 < x.toRat ∨ x.toRat ≤ -(1 / 10 ^ 14)) : ∃ r, arccsch x = .ok r := by
  have hne : x.toRat ≠ 0 := abs_pos.mp (lt_of_lt_of_le (by positivity) hsize)
  rw [arccsch, if_neg (by rwa [isZero_iff]), quotientOrAbort_eq 1 hne]
  refine exists_arcsinh hn (abs_reciprocal_le hsize) ?_
  rcases hx with hpos | hneg
  · linarith [reciprocal_nonneg hpos]
  · have hbound : 1 / 10 ^ 14 ≤ |x.toRat| := by
      rw [abs_of_neg (lt_of_le_of_lt hneg (by norm_num))]
      linarith
    linarith [neg_abs_le (1 / x).toRat, abs_reciprocal_le hbound]

/-! ### Cosine and secant -/

/-- The inverse hyperbolic cosine of a number from one on, of moderate size, has a value. -/
lemma exists_arccosh (hn : n ≤ 10 ^ 8) (hone : 1 ≤ x.toRat) (hx : x.toRat ≤ 10 ^ n) :
    ∃ r, arccosh x = .ok r := by
  have hvalue : (x * x - 1).toRat = (x * x).toRat - 1 := by rw [toRat_sub, toRat_one]
  have hsquare := mul_self_toRat_le (n := n) (by rwa [abs_of_pos (one_pos.trans_le hone)])
  have hone' := one_le_mul_self hone
  obtain ⟨root, hroot, hsign⟩ := exists_sqrt (x := x * x - 1) (n := 2 * n) (by omega)
    (by rw [hvalue]; linarith) (by rw [hvalue]; linarith)
  rw [arccosh, if_neg (by rw [lt_iff, toRat_one]; exact not_lt.mpr hone), hroot]
  exact ln_sum (one_pos.trans_le hone) hsign

/-- **The inverse hyperbolic cosine** fails exactly below one. -/
theorem arccosh_eq_error_iff (hn : n ≤ 10 ^ 8) (hx : |x.toRat| ≤ 10 ^ n) :
    arccosh x = .error failure ↔ failure = .arccoshUndefined ∧ x.toRat < 1 := by
  rcases lt_or_ge x.toRat 1 with hless | hone
  · rw [arccosh, if_pos (by rwa [lt_iff, toRat_one])]
    simp [hless, eq_comm]
  · obtain ⟨r, hr⟩ := exists_arccosh hn hone ((le_abs_self _).trans hx)
    simp [hr, hone.not_gt]

/-- **The inverse hyperbolic secant** fails exactly outside of the interval from zero, which it leaves
out, to one. -/
theorem arcsech_eq_error_iff (hn : n ≤ 10 ^ 8) (hx : HasMagnitudeWithin n x) :
    arcsech x = .error failure ↔
      failure = .arcsechUndefined ∧ (x.toRat ≤ 0 ∨ 1 < x.toRat) := by
  by_cases hdomain : 0 < x.toRat ∧ x.toRat ≤ 1
  · obtain ⟨hpos, hone⟩ := hdomain
    have hguard : ¬ (!x.isPositive || decide (1 < x)) = true := by
      simp [lt_iff, (isPositive_iff x).mpr hpos, hone]
    rcases hx with hzero | ⟨hsize, -⟩
    · exact absurd hzero hpos.ne'
    have hreciprocal : 1 ≤ (1 / x).toRat := by
      have hexact : (10 : ℚ) ^ (0 : ℤ) ≤ 1 / |x.toRat| := by
        rw [zpow_zero, abs_of_pos hpos]
        exact one_le_one_div hpos hone
      have := le_roundSignificant workingDigits_pos hexact
      rwa [← abs_reciprocal hpos.ne', zpow_zero, abs_of_nonneg (reciprocal_nonneg hpos)] at this
    obtain ⟨r, hr⟩ := exists_arccosh hn hreciprocal
      ((le_abs_self _).trans (abs_reciprocal_le hsize))
    have hvalue : arcsech x = .ok r := by
      rw [arcsech, if_neg hguard, quotientOrAbort_eq 1 hpos.ne']
      exact hr
    simp [hvalue, hpos, hone]
  · have hguard : (!x.isPositive || decide (1 < x)) = true := by
      rw [← isPositive_iff] at hdomain
      simpa [lt_iff, imp_iff_not_or] using hdomain
    have houtside : x.toRat ≤ 0 ∨ 1 < x.toRat := by
      rw [not_and_or, not_lt, not_le] at hdomain
      exact hdomain
    rw [arcsech, if_pos hguard]
    simp [houtside, eq_comm]

/-! ### Tangent and cotangent -/

/-- The quotient whose logarithm the inverse hyperbolic tangent takes, less one, is not positive if
and only if it is below half a unit in the last digit of one. -/
lemma ratio_nonpos_iff (hx : |x.toRat| < 1) :
    (ofInt 2 / (1 - x) - 1).toRat ≤ 0 ↔ 1 + x.toRat < 5 / 10 ^ 32 * (1 - x.toRat) := by
  obtain ⟨hlow, hhigh⟩ := abs_lt.mp hx
  have hvalue : (1 - x).toRat = 1 - x.toRat := by rw [toRat_sub, toRat_one]
  have hdivisor : 0 < 1 - x.toRat := by linarith
  have hround := roundSignificant_neighbours (n := 10 ^ 31) (k := -31)
    (div_pos (by norm_num : (0 : ℚ) < 2) hdivisor) workingDigits_pos (by norm_num [workingDigits])
    (by norm_num [workingDigits])
  rw [toRat_sub, toRat_one, toRat_div_of_ne_zero (by rw [toRat_ofInt]; norm_num)
    (by rw [hvalue]; exact hdivisor.ne'), hvalue, toRat_ofInt, sub_nonpos]
  norm_num [zpow_neg] at hround ⊢
  rw [div_lt_iff₀ hdivisor, le_div_iff₀ hdivisor] at hround
  constructor
  · intro hle
    rcases hround with ⟨hless, -⟩ | ⟨-, hmore⟩ <;> linarith
  · intro hless
    rcases hround with ⟨-, hle⟩ | ⟨hmore, -⟩ <;> linarith

/-- **The inverse hyperbolic tangent** fails outside of its domain, and near its lower end, where the
quotient is rounded to one. -/
theorem arctanh_eq_error_iff :
    arctanh x = .error failure ↔
      (failure = .arctanhUndefined ∧ 1 ≤ |x.toRat|) ∨
        (failure = .lnUndefined ∧ |x.toRat| < 1 ∧ 1 + x.toRat < 5 / 10 ^ 32 * (1 - x.toRat)) := by
  rcases lt_or_ge |x.toRat| 1 with hsmall | hlarge
  · have hne : (1 - x).toRat ≠ 0 := by
      rw [toRat_sub, toRat_one]
      linarith [(abs_lt.mp hsmall).2]
    have hvalue : arctanh x = (ln (ofInt 2 / (1 - x) - 1)).map (half * ·) := by
      rw [arctanh, if_neg (by rw [le_iff, toRat_one, toRat_abs]; exact not_le.mpr hsmall),
        quotientOrAbort_eq _ hne]
      change ((ln _).bind fun logarithm => .ok (half * logarithm)) = _
      cases ln (ofInt 2 / (1 - x) - 1) <;> rfl
    rw [hvalue]
    rcases le_or_gt (ofInt 2 / (1 - x) - 1).toRat 0 with hratio | hratio
    · rw [ln_of_nonpos hratio]
      rw [ratio_nonpos_iff hsmall] at hratio
      simp [Except.map, hsmall, hratio, hsmall.not_ge, eq_comm]
    · obtain ⟨r, hr, -⟩ := ln_near hratio
      have hfar := mt (ratio_nonpos_iff hsmall).mpr hratio.not_ge
      rw [hr]
      simp [Except.map, hsmall.not_ge, hfar]
  · rw [arctanh, if_pos (by rwa [le_iff, toRat_one, toRat_abs])]
    simp [hlarge, hlarge.not_gt, eq_comm]

/-- A reciprocal is rounded to a size from one on. -/
lemma one_le_abs_reciprocal_iff (hx : x.toRat ≠ 0) :
    1 ≤ |(1 / x).toRat| ↔ (1 - 5 / 10 ^ 33) * |x.toRat| ≤ 1 := by
  have hpos := abs_pos.mpr hx
  have hround := reciprocal_neighbours hx (d := 0) (by norm_num)
  norm_num only [div_lt_iff₀ hpos, le_div_iff₀ hpos] at hround ⊢
  constructor
  · intro hle
    rcases hround with ⟨-, hless⟩ | ⟨hnear, -⟩ <;> linarith
  · intro hnear
    rcases hround with ⟨hfar, -⟩ | ⟨-, hle⟩ <;> linarith

/-- A reciprocal is rounded to a number so near to minus one that the inverse hyperbolic tangent
fails, if it is not minus one itself. -/
lemma reciprocal_low_iff (hx : x.toRat ≠ 0) :
    1 + (1 / x).toRat < 5 / 10 ^ 32 * (1 - (1 / x).toRat) ↔
      x.toRat < 0 ∧ (1 - 95 / 10 ^ 33) * |x.toRat| ≤ 1 := by
  rcases lt_or_gt_of_ne hx with hneg | hpos
  · have hsize := abs_pos.mpr hx
    have hround := reciprocal_neighbours hx (d := 9) (by norm_num)
    rw [abs_of_neg (reciprocal_neg hneg)] at hround
    rw [and_iff_right hneg]
    norm_num only [div_lt_iff₀ hsize, le_div_iff₀ hsize] at hround ⊢
    constructor
    · intro hlow
      rcases hround with ⟨-, hfar⟩ | ⟨hnear, -⟩ <;> linarith
    · intro hnear
      rcases hround with ⟨hfar, -⟩ | ⟨-, hlow⟩ <;> linarith
  · have hnonneg := reciprocal_nonneg hpos
    refine iff_of_false ?_ fun h => absurd h.1 hpos.not_gt
    norm_num
    linarith

/-- **The inverse hyperbolic cotangent** fails outside of its domain, and near both of its ends: where
the reciprocal is rounded to one in size, and where that of a negative number comes so near to one
that the inverse hyperbolic tangent fails. -/
theorem arccoth_eq_error_iff :
    arccoth x = .error failure ↔
      (failure = .arccothUndefined ∧ |x.toRat| ≤ 1) ∨
        (failure = .arctanhUndefined ∧ 1 < |x.toRat| ∧ (1 - 5 / 10 ^ 33) * |x.toRat| ≤ 1) ∨
          (failure = .lnUndefined ∧ x.toRat < 0 ∧ 1 < (1 - 5 / 10 ^ 33) * |x.toRat| ∧
            (1 - 95 / 10 ^ 33) * |x.toRat| ≤ 1) := by
  rcases lt_or_ge 1 |x.toRat| with hlarge | hsmall
  · have hne : x.toRat ≠ 0 := abs_pos.mp (one_pos.trans hlarge)
    have hvalue : arccoth x = arctanh (1 / x) := by
      rw [arccoth, if_neg (by rw [le_iff, toRat_one, toRat_abs]; exact not_le.mpr hlarge),
        quotientOrAbort_eq 1 hne]
      rfl
    rw [hvalue, arctanh_eq_error_iff, ← not_le, one_le_abs_reciprocal_iff hne, not_le,
      reciprocal_low_iff hne]
    have hguard : ¬ |x.toRat| ≤ 1 := not_le.mpr hlarge
    tauto
  · rw [arccoth, if_pos (by rwa [le_iff, toRat_one, toRat_abs])]
    have hless : ¬ 1 < (1 - 5 / 10 ^ 33) * |x.toRat| := by
      have := abs_nonneg x.toRat
      norm_num
      linarith
    simp [hsmall, hsmall.not_gt, hless, eq_comm]

/-! ### All six -/

/-- **The domains of the inverse hyperbolic functions**, for arguments of any moderate size. The
inverse cosine and secant fail exactly outside of their domains, with failures of their own. The
inverse tangent, cotangent, sine and cosecant also fail inside: near the ends of an interval, or for
negative arguments that are very large or very small. Whatever does not fail has a value. -/
theorem inverseHyperbolic_eq_error_iff (hn : n ≤ 10 ^ 8) (hx : HasMagnitudeWithin n x)
    (failure : Failure) :
    (arccosh x = .error failure ↔ failure = .arccoshUndefined ∧ x.toRat < 1) ∧
      (arcsech x = .error failure ↔
        failure = .arcsechUndefined ∧ (x.toRat ≤ 0 ∨ 1 < x.toRat)) ∧
      (arctanh x = .error failure ↔
        (failure = .arctanhUndefined ∧ 1 ≤ |x.toRat|) ∨
          (failure = .lnUndefined ∧ |x.toRat| < 1 ∧
            1 + x.toRat < 5 / 10 ^ 32 * (1 - x.toRat))) ∧
      (arccoth x = .error failure ↔
        (failure = .arccothUndefined ∧ |x.toRat| ≤ 1) ∨
          (failure = .arctanhUndefined ∧ 1 < |x.toRat| ∧ (1 - 5 / 10 ^ 33) * |x.toRat| ≤ 1) ∨
            (failure = .lnUndefined ∧ x.toRat < 0 ∧ 1 < (1 - 5 / 10 ^ 33) * |x.toRat| ∧
              (1 - 95 / 10 ^ 33) * |x.toRat| ≤ 1)) ∧
      (arcsinh x = .error failure ↔
        failure = .lnUndefined ∧
          ∃ root, sqrt (x * x + 1) = .ok root ∧ x.toRat + root.toRat ≤ 0) ∧
      (arccsch x = .error failure ↔
        (failure = .arccschUndefined ∧ x.toRat = 0) ∨
          (failure = .lnUndefined ∧ x.toRat ≠ 0 ∧
            ∃ root, sqrt (1 / x * (1 / x) + 1) = .ok root ∧ (1 / x).toRat + root.toRat ≤ 0)) ∧
      (-10 ^ 14 ≤ x.toRat → ∃ r, arcsinh x = .ok r) ∧
      (0 < x.toRat ∨ x.toRat ≤ -(1 / 10 ^ 14) → ∃ r, arccsch x = .ok r) := by
  refine ⟨arccosh_eq_error_iff hn hx.abs_le, arcsech_eq_error_iff hn hx, arctanh_eq_error_iff,
    arccoth_eq_error_iff, arcsinh_eq_error_iff hn hx.abs_le, arccsch_eq_error_iff hn hx,
    exists_arcsinh hn hx.abs_le, fun hfar => ?_⟩
  rcases hx with hzero | ⟨hsize, -⟩
  · rcases hfar with hpos | hneg
    · exact absurd hzero hpos.ne'
    · norm_num [hzero] at hneg
  · exact exists_arccsch hn hsize hfar

/-- Forty nines after the point of a negative number: the inverse hyperbolic tangent fails, the sine
and the cosecant do not. -/
theorem inverseHyperbolic_eq_error_near_minus_one :
    arctanh ⟨-(10 ^ 40 - 1), 40⟩ = .error .lnUndefined ∧
      (∃ r, arcsinh ⟨-(10 ^ 40 - 1), 40⟩ = .ok r) ∧
      ∃ r, arccsch ⟨-(10 ^ 40 - 1), 40⟩ = .ok r := by
  have hvalue : (⟨-(10 ^ 40 - 1), 40⟩ : Decimal).toRat = -(1 - 1 / 10 ^ 40) := by
    norm_num [toRat, zpow_neg]
  have hrange : HasMagnitudeWithin 1000 ⟨-(10 ^ 40 - 1), 40⟩ := by
    refine HasMagnitudeWithin.mono (m := 1) (Or.inr ?_) (by norm_num)
    rw [hvalue, abs_neg]
    norm_num
  obtain ⟨-, -, htangent, -, -, -, hsine, hcosecant⟩ :=
    inverseHyperbolic_eq_error_iff (by norm_num) hrange .lnUndefined
  rw [hvalue] at htangent hsine hcosecant
  refine ⟨htangent.mpr (Or.inr ⟨rfl, ?_, ?_⟩), hsine ?_, hcosecant (Or.inr ?_)⟩ <;>
    norm_num

/-- **Inside their domains some of the functions fail**: the inverse hyperbolic sine of minus the
twentieth power of ten is undefined. -/
theorem not_forall_inverseHyperbolic_defined :
    ¬ ∀ (x : Decimal) (failure : Failure), HasMagnitudeWithin 1000 x →
      arcsinh x ≠ .error failure ∧
        (arccosh x = .error failure ↔ failure = .arccoshUndefined ∧ x.toRat < 1) ∧
        (arctanh x = .error failure ↔ failure = .arctanhUndefined ∧ 1 ≤ |x.toRat|) ∧
        (arcsech x = .error failure ↔
          failure = .arcsechUndefined ∧ (x.toRat ≤ 0 ∨ 1 < x.toRat)) ∧
        (arccsch x = .error failure ↔ failure = .arccschUndefined ∧ x.toRat = 0) ∧
        (arccoth x = .error failure ↔ failure = .arccothUndefined ∧ |x.toRat| ≤ 1) := by
  intro h
  have hrange : HasMagnitudeWithin 1000 ⟨-1, -20⟩ := by
    refine HasMagnitudeWithin.mono (m := 20) (Or.inr ?_) (by norm_num)
    norm_num [toRat]
  exact (h ⟨-1, -20⟩ .lnUndefined hrange).1 (by decide +kernel)

end DecimalCalculator.Elementary
