import DecimalCalculator.Proofs.Decimal.Rounding

/-!
How far scales grow.

* `Decimal.extent`: how far the first and the last digit of a decimal are from the point, and one
  digit more than is worked with.
* `extent_add_le`, `extent_sub_le`, `extent_remainder_le`: sums, differences and remainders are at
  most one digit longer than their operands.
* `extent_mul_le`, `extent_div_le`: **the extent of a product or quotient** is at most the sum of
  those of its operands.
-/

namespace DecimalCalculator.Decimal

variable {x y z : Decimal}

/-- How far the digits of a decimal are from the point, and one digit more than is worked with. -/
def extent (x : Decimal) : ℤ := max |x.scale| |x.magnitude| + 33

/-- The scale lies well within the extent. -/
lemma abs_scale_le (x : Decimal) : |x.scale| ≤ x.extent - 33 := by
  have := le_max_left |x.scale| |x.magnitude|
  rw [extent]
  omega

lemma extent_nonneg (x : Decimal) : 0 ≤ x.extent := by
  have := abs_scale_le x
  have := abs_nonneg x.scale
  omega

/-- The first digit lies well within the extent. -/
lemma abs_magnitude_le (x : Decimal) : |x.magnitude| ≤ x.extent - 33 := by
  have := le_max_right |x.scale| |x.magnitude|
  rw [extent]
  omega

/-- An extent, from its two parts. -/
lemma extent_le {n : ℤ} (hscale : |x.scale| ≤ n - 33) (hmagnitude : |x.magnitude| ≤ n - 33) :
    x.extent ≤ n := by
  have := max_le hscale hmagnitude
  rw [extent]
  omega

/-! ### First digits -/

/-- The first digit is not behind the last one. -/
lemma neg_scale_le_magnitude (x : Decimal) : -x.scale ≤ x.magnitude := by
  have : 0 < x.precision := digitCount_pos x.mantissa.natAbs
  rw [magnitude]
  omega

/-- The only digit of zero. -/
lemma magnitude_of_toRat_eq_zero (h : x.toRat = 0) : x.magnitude = -x.scale := by
  rw [magnitude, precision_of_toRat_eq_zero h]
  norm_num

/-- What is below a power of ten has its first digit below it. -/
lemma magnitude_lt {k : ℤ} (hne : x.toRat ≠ 0) (h : |x.toRat| < 10 ^ k) : x.magnitude < k :=
  (zpow_lt_zpow_iff_right₀ (by norm_num)).mp ((zpow_magnitude_le hne).trans_lt h)

/-- What reaches a power of ten has its first digit there, or before. -/
lemma le_magnitude {k : ℤ} (h : 10 ^ k ≤ |x.toRat|) : k ≤ x.magnitude := by
  have : k < x.magnitude + 1 :=
    (zpow_lt_zpow_iff_right₀ (by norm_num)).mp (h.trans_lt (lt_zpow_magnitude x))
  omega

/-- A number with few digits reaches hardly farther than its first digit. -/
lemma extent_le_of_precision {n : ℤ} (hprecision : x.precision ≤ workingDigits)
    (hmagnitude : |x.magnitude| ≤ n) : x.extent ≤ n + 64 := by
  have hpos : 0 < x.precision := digitCount_pos x.mantissa.natAbs
  have hscale : x.scale = x.precision - 1 - x.magnitude := by
    rw [magnitude]
    ring
  rw [workingDigits] at hprecision
  rw [abs_le] at hmagnitude
  refine extent_le ?_ ?_ <;> rw [abs_le] <;> omega

/-! ### Sums -/

/-- A number at the larger of two scales is hardly longer than two numbers of these scales, if it is
not larger than both together. -/
lemma extent_le_of_abs_le (hscale : z.scale = max x.scale y.scale)
    (hvalue : |z.toRat| ≤ |x.toRat| + |y.toRat|) : z.extent ≤ max x.extent y.extent + 1 := by
  have hx := abs_scale_le x
  have hy := abs_scale_le y
  have hx' := abs_magnitude_le x
  have hy' := abs_magnitude_le y
  set n := max x.extent y.extent with hn
  have hxn : x.extent ≤ n := le_max_left _ _
  have hyn : y.extent ≤ n := le_max_right _ _
  have hlow := neg_scale_le_magnitude z
  rw [abs_le] at hx hy hx' hy'
  have hhigh : z.magnitude ≤ n - 32 := by
    by_cases hzero : z.toRat = 0
    · rw [magnitude_of_toRat_eq_zero hzero]
      omega
    · have hten : ∀ w : Decimal, w.magnitude ≤ n - 33 → |w.toRat| < 10 ^ (n - 32) := fun w hw =>
        (lt_zpow_magnitude w).trans_le (zpow_le_zpow_right₀ (by norm_num) (by omega))
      have hsum : |z.toRat| < 10 ^ (n - 31) := by
        have hstep : (10 : ℚ) ^ (n - 31) = 10 ^ (n - 32) * 10 := by
          rw [← zpow_add_one₀ (by norm_num)]
          congr 1
          ring
        have := hten x (by omega)
        have := hten y (by omega)
        have := zpow_ten_pos (n - 32)
        linarith
      have := magnitude_lt hzero hsum
      omega
  refine extent_le ?_ ?_ <;> rw [abs_le] <;> omega

/-- **The extent of a sum.** -/
theorem extent_add_le (x y : Decimal) : (x + y).extent ≤ max x.extent y.extent + 1 := by
  refine extent_le_of_abs_le (scale_add x y) ?_
  rw [toRat_add]
  exact abs_add_le _ _

/-- **The extent of a difference.** -/
theorem extent_sub_le (x y : Decimal) : (x - y).extent ≤ max x.extent y.extent + 1 := by
  refine extent_le_of_abs_le (scale_sub x y) ?_
  rw [toRat_sub]
  exact abs_sub _ _

/-- The extent does not depend on the sign. -/
@[simp] lemma extent_neg (x : Decimal) : (-x).extent = x.extent := by
  rw [extent, extent, magnitude_neg]
  rfl

/-- **The extent of a remainder**, which is smaller than the divisor. -/
theorem extent_remainder_le (h : x.remainder? y = some z) : z.extent ≤ max x.extent y.extent + 1 := by
  rw [remainder?] at h
  split at h
  · exact absurd h (by simp)
  · next hy =>
    simp only at h
    split at h
    · exact absurd h (by simp)
    · obtain rfl := Option.some.inj h
      set s := max x.scale y.scale with hs
      refine extent_le_of_abs_le rfl ?_
      have hrest : ((x.mantissaAt s).tmod (y.mantissaAt s)).natAbs ≤ (x.mantissaAt s).natAbs := by
        rw [Int.natAbs_tmod]
        exact Nat.mod_le _ _
      have hvalue : |(⟨(x.mantissaAt s).tmod (y.mantissaAt s), s⟩ : Decimal).toRat| ≤ |x.toRat| := by
        rw [toRat_eq_mantissaAt (x := x) (le_max_left _ _ : x.scale ≤ s), toRat, abs_mul, abs_mul]
        refine mul_le_mul_of_nonneg_right ?_ (abs_nonneg _)
        rw [← Int.cast_abs, ← Int.cast_abs, Int.abs_eq_natAbs, Int.abs_eq_natAbs]
        exact_mod_cast hrest
      exact hvalue.trans (le_add_of_nonneg_right (abs_nonneg _))

/-! ### Rounding -/

/-- Rounding to the working digits moves the first digit by one place at most. -/
lemma magnitude_round (h : workingDigits < x.precision) :
    x.magnitude ≤ (x.round workingDigits).magnitude ∧
      (x.round workingDigits).magnitude ≤ x.magnitude + 1 := by
  have hne : x.toRat ≠ 0 := by
    intro hzero
    rw [precision_of_toRat_eq_zero hzero, workingDigits] at h
    omega
  have hlow := zpow_magnitude_le hne
  have hhigh := (lt_zpow_magnitude x).le
  have hbounds : (10 : ℚ) ^ x.magnitude ≤ |(x.round workingDigits).toRat| ∧
      |(x.round workingDigits).toRat| ≤ 10 ^ (x.magnitude + 1) := by
    rcases le_or_gt 0 x.toRat with hsign | hsign
    · rw [abs_of_nonneg hsign] at hlow hhigh
      have hround := le_round workingDigits_pos hsign hlow
      rw [abs_of_pos ((zpow_ten_pos _).trans_le hround)]
      exact ⟨hround, round_le workingDigits_pos hsign hhigh⟩
    · -- rounding commutes with the sign
      rw [abs_of_neg hsign, ← toRat_neg] at hlow hhigh
      have hnonneg : 0 ≤ (-x).toRat := by
        rw [toRat_neg]
        linarith
      have hround := le_round workingDigits_pos hnonneg hlow
      have hround' := round_le workingDigits_pos hnonneg hhigh
      rw [toRat_round_neg workingDigits_pos] at hround hround'
      rw [← abs_neg, abs_of_pos ((zpow_ten_pos _).trans_le hround)]
      exact ⟨hround, hround'⟩
  refine ⟨le_magnitude hbounds.1, ?_⟩
  have hround : (x.round workingDigits).toRat ≠ 0 :=
    abs_pos.mp ((zpow_ten_pos _).trans_le hbounds.1)
  exact (zpow_le_zpow_iff_right₀ (by norm_num)).mp ((zpow_magnitude_le hround).trans hbounds.2)

/-- The extent of a rounded number, from the scale and the first digit before. -/
lemma extent_round_le {n : ℤ} (hscale : |x.scale| ≤ n - 33) (hmagnitude : |x.magnitude| ≤ n - 64) :
    (x.round workingDigits).extent ≤ n := by
  rcases le_or_gt x.precision workingDigits with h | h
  · rw [round_of_le h]
    exact extent_le hscale (by omega)
  · obtain ⟨hlow, hhigh⟩ := magnitude_round h
    have hprecision := precision_round_le workingDigits_pos x
    have hpos : 0 < (x.round workingDigits).precision := digitCount_pos _
    have hscale' : (x.round workingDigits).scale =
        (x.round workingDigits).precision - 1 - (x.round workingDigits).magnitude := by
      rw [magnitude]
      ring
    rw [workingDigits] at hprecision
    rw [abs_le] at hmagnitude
    refine extent_le ?_ ?_ <;> rw [abs_le] <;> rw [workingDigits] at * <;> omega

/-! ### Products and quotients -/

/-- The first digit of the exact product. -/
lemma abs_magnitude_product_le (x y : Decimal) :
    |(⟨x.mantissa * y.mantissa, x.scale + y.scale⟩ : Decimal).magnitude| ≤
      x.extent + y.extent - 65 := by
  have hxs := abs_scale_le x
  have hys := abs_scale_le y
  have hxm := abs_magnitude_le x
  have hym := abs_magnitude_le y
  set product : Decimal := ⟨x.mantissa * y.mantissa, x.scale + y.scale⟩ with hproduct
  have hscale : product.scale = x.scale + y.scale := rfl
  rw [abs_le] at hxs hys hxm hym ⊢
  have hlow := neg_scale_le_magnitude product
  refine ⟨by omega, ?_⟩
  by_cases hzero : product.toRat = 0
  · rw [magnitude_of_toRat_eq_zero hzero]
    omega
  · have hlt : |product.toRat| < 10 ^ (x.magnitude + y.magnitude + 2) := by
      rw [toRat_product, abs_mul, show x.magnitude + y.magnitude + 2 =
        (x.magnitude + 1) + (y.magnitude + 1) by ring, zpow_add₀ (by norm_num)]
      exact mul_lt_mul'' (lt_zpow_magnitude x) (lt_zpow_magnitude y) (abs_nonneg _) (abs_nonneg _)
    have := magnitude_lt hzero hlt
    omega

/-- **The extent of a product.** -/
theorem extent_mul_le (x y : Decimal) : (x * y).extent ≤ x.extent + y.extent - 1 := by
  have hxs := abs_scale_le x
  have hys := abs_scale_le y
  refine extent_round_le ?_ ?_
  · refine (abs_add_le _ _).trans ?_
    omega
  · have := abs_magnitude_product_le x y
    omega

/-- The scale of a truncated quotient: that of the exact quotient, or as many digits behind the first
one as are needed. -/
lemma abs_scale_truncatedQuotient_le (x y : Decimal) :
    |x.scale - y.scale + x.quotientShift y| ≤ x.extent + y.extent - 33 := by
  have hxs := abs_scale_le x
  have hys := abs_scale_le y
  have hxm := abs_magnitude_le x
  have hym := abs_magnitude_le y
  rw [quotientShift, workingDigits]
  rw [magnitude] at hxm hym
  rw [abs_le] at hxs hys hxm hym ⊢
  constructor <;> omega

/-- The first digit of a truncated quotient. -/
lemma abs_magnitude_truncatedQuotient_le (hx : x.toRat ≠ 0) (hy : y.toRat ≠ 0) :
    |(x.truncatedQuotient y).magnitude| ≤ x.extent + y.extent - 64 := by
  have hxm := abs_magnitude_le x
  have hym := abs_magnitude_le y
  obtain ⟨hnear, hbelow⟩ := truncatedQuotient_bounds hx hy
  set quotient := x.truncatedQuotient y with hquotient
  have hpos : 0 < |y.toRat| := abs_pos.mpr hy
  -- the exact quotient
  have hhigh : |x.toRat / y.toRat| < 10 ^ (x.magnitude - y.magnitude + 1) := by
    rw [abs_div, div_lt_iff₀ hpos]
    calc |x.toRat| < 10 ^ (x.magnitude + 1) := lt_zpow_magnitude x
      _ = 10 ^ (x.magnitude - y.magnitude + 1) * 10 ^ y.magnitude := by
        rw [← zpow_add₀ (by norm_num)]
        congr 1
        ring
      _ ≤ 10 ^ (x.magnitude - y.magnitude + 1) * |y.toRat| :=
        mul_le_mul_of_nonneg_left (zpow_magnitude_le hy) (zpow_ten_pos _).le
  have hlow : (10 : ℚ) ^ (x.magnitude - y.magnitude - 1) ≤ |x.toRat / y.toRat| := by
    rw [abs_div, le_div_iff₀ hpos]
    calc (10 : ℚ) ^ (x.magnitude - y.magnitude - 1) * |y.toRat|
        ≤ 10 ^ (x.magnitude - y.magnitude - 1) * 10 ^ (y.magnitude + 1) :=
          mul_le_mul_of_nonneg_left (lt_zpow_magnitude y).le (zpow_ten_pos _).le
      _ = 10 ^ x.magnitude := by
        rw [← zpow_add₀ (by norm_num)]
        congr 1
        ring
      _ ≤ |x.toRat| := zpow_magnitude_le hx
  -- truncation takes little of it away
  have hreached : (10 : ℚ) ^ (x.magnitude - y.magnitude - 2) ≤ |quotient.toRat| := by
    have htenth : (10 : ℚ) ^ (x.magnitude - y.magnitude - 1) =
        10 ^ (x.magnitude - y.magnitude - 2) * 10 := by
      rw [← zpow_add_one₀ (by norm_num)]
      congr 1
      ring
    have hlost := abs_sub_abs_le_abs_sub (x.toRat / y.toRat) quotient.toRat
    rw [abs_sub_comm] at hlost
    have hunit := zpow_ten_pos (x.magnitude - y.magnitude - 2)
    norm_num at hnear
    linarith
  have hne : quotient.toRat ≠ 0 := abs_pos.mp ((zpow_ten_pos _).trans_le hreached)
  have hlow' := le_magnitude hreached
  have hhigh' := magnitude_lt hne (hbelow.trans_lt hhigh)
  rw [abs_le] at hxm hym ⊢
  constructor <;> omega

/-- **The extent of a quotient.** -/
theorem extent_div_le (x : Decimal) (hy : y.toRat ≠ 0) : (x / y).extent ≤ x.extent + y.extent := by
  cases hzero : x.isZero with
  | true =>
    have hx := abs_scale_le x
    have hy := abs_scale_le y
    have := abs_nonneg x.scale
    have := abs_nonneg y.scale
    rw [div_eq_zero hzero]
    have : (0 : Decimal).extent = 33 := by decide
    omega
  | false =>
    rw [div_eq_round hzero]
    refine extent_round_le (abs_scale_truncatedQuotient_le x y) ?_
    exact abs_magnitude_truncatedQuotient_le ((isZero_eq_false_iff x).mp hzero) hy

end DecimalCalculator.Decimal
