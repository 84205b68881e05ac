import DecimalCalculator.Proofs.Decimal.WholeNumber

/-!
Numbers rounded toward zero: remainders, and the integers in decimals.

* `towardZero`: a rational number rounded toward zero. `abs_sub_towardZero_lt`, `sign_sub_towardZero`:
  what it leaves is less than one, and zero or of the sign of the number.
* `towardZero_intCast_div`: the quotients of integers, so rounded, are those of their truncating
  division.
* `Decimal.remainder?_truncates`: **the remainder** is what the dividend has beyond the whole quotient
  times the divisor. It is missing only without a divisor or where the whole quotient is too long.
* `Decimal.integral_views_agree`: **the integral views** of a decimal are those of its number: the
  whole part and the fraction, whether it is an integer, and its 64-bit integers.
-/

namespace DecimalCalculator

/-! ### Rounding toward zero -/

/-- The rational number rounded toward zero. -/
def towardZero (q : ℚ) : ℤ := if 0 ≤ q then ⌊q⌋ else ⌈q⌉

/-- An integer stays as it is. -/
lemma towardZero_intCast (n : ℤ) : towardZero n = n := by
  rw [towardZero, Int.floor_intCast, Int.ceil_intCast, ite_self]

/-- The opposite number is rounded to the opposite integer. -/
lemma towardZero_neg (q : ℚ) : towardZero (-q) = -towardZero q := by
  rcases lt_trichotomy q 0 with hneg | rfl | hpos
  · rw [towardZero, towardZero, if_pos (by linarith), if_neg (by linarith), Int.floor_neg]
  · simp [towardZero]
  · rw [towardZero, towardZero, if_neg (by linarith), if_pos hpos.le, Int.ceil_neg]

/-- Rounding toward zero rounds the size of a number down. -/
lemma towardZero_eq_sign_mul (q : ℚ) : towardZero q = SignType.sign q * ⌊|q|⌋ := by
  rcases lt_trichotomy q 0 with hneg | rfl | hpos
  · rw [towardZero, if_neg (by linarith), sign_neg hneg, abs_of_neg hneg, Int.floor_neg]
    simp
  · simp [towardZero]
  · rw [towardZero, if_pos hpos.le, sign_pos hpos, abs_of_pos hpos]
    simp

/-- The size of a number rounded toward zero is its size rounded down. -/
lemma abs_towardZero (q : ℚ) : |towardZero q| = ⌊|q|⌋ := by
  have hnonneg : ∀ a : ℚ, 0 ≤ a → |towardZero a| = ⌊|a|⌋ := by
    intro a ha
    rw [towardZero, if_pos ha, abs_of_nonneg ha, abs_of_nonneg (Int.floor_nonneg.mpr ha)]
  rcases le_total 0 q with hq | hq
  · exact hnonneg q hq
  · have := hnonneg (-q) (neg_nonneg.mpr hq)
    rwa [towardZero_neg, abs_neg, abs_neg] at this

/-- A number below one in size is rounded to zero. -/
lemma towardZero_eq_zero {q : ℚ} (h : |q| < 1) : towardZero q = 0 := by
  rw [← abs_eq_zero, abs_towardZero]
  exact Int.floor_eq_zero_iff.mpr ⟨abs_nonneg q, h⟩

/-- Rounding toward zero does not pass an integer. -/
lemma le_abs_towardZero {q : ℚ} {n : ℤ} (h : n ≤ |q|) : n ≤ |towardZero q| := by
  rw [abs_towardZero]
  exact Int.le_floor.mpr h

/-- What rounding toward zero leaves of a number: the fraction of its size, with its sign. -/
lemma sub_towardZero (q : ℚ) : q - towardZero q = SignType.sign q * Int.fract |q| := by
  have hsize := sign_mul_abs q
  rw [towardZero_eq_sign_mul, Int.fract]
  push_cast
  linear_combination -hsize

/-- What rounding toward zero leaves is less than one. -/
lemma abs_sub_towardZero_lt (q : ℚ) : |q - towardZero q| < 1 := by
  rw [sub_towardZero, abs_mul, abs_of_nonneg (Int.fract_nonneg |q|)]
  refine lt_of_le_of_lt (mul_le_of_le_one_left (Int.fract_nonneg _) ?_) (Int.fract_lt_one |q|)
  cases SignType.sign q <;> simp

/-- What rounding toward zero leaves is zero or has the sign of the number. -/
lemma sign_sub_towardZero (q : ℚ) :
    q - towardZero q = 0 ∨ SignType.sign (q - towardZero q) = SignType.sign q := by
  rw [sub_towardZero]
  rcases (Int.fract_nonneg |q|).eq_or_lt with hzero | hpos
  · left
    rw [← hzero, mul_zero]
  · right
    rw [sign_mul, sign_pos hpos, mul_one]
    cases SignType.sign q <;> simp

/-- **The truncating quotient** of integers is their quotient rounded toward zero. -/
theorem towardZero_intCast_div (m d : ℤ) : towardZero ((m : ℚ) / d) = m.tdiv d := by
  have hnatural : ∀ a b : ℕ, towardZero ((a : ℚ) / b) = (a : ℤ).tdiv b := by
    intro a b
    rw [towardZero, if_pos (by positivity), Rat.floor_natCast_div_natCast, ← Int.ofNat_tdiv,
      Int.natCast_ediv]
  obtain ⟨a, rfl | rfl⟩ := m.eq_nat_or_neg <;> obtain ⟨b, rfl | rfl⟩ := d.eq_nat_or_neg <;>
    simp [neg_div, div_neg, towardZero_neg, Int.neg_tdiv, Int.tdiv_neg, hnatural]

namespace Decimal

variable {x y : Decimal} {n s : ℤ}

/-! ### Remainders -/

/-- The whole quotient of two numbers, from their mantissas at a common scale. -/
lemma tdiv_mantissaAt (hx : x.scale ≤ s) (hy : y.scale ≤ s) :
    (x.mantissaAt s).tdiv (y.mantissaAt s) = towardZero (x.toRat / y.toRat) := by
  rw [← towardZero_intCast_div, toRat_eq_mantissaAt hx, toRat_eq_mantissaAt hy,
    mul_div_mul_right _ _ (zpow_ten_pos (-s)).ne']

/-- The remainder of the mantissas at a common scale is what the dividend has beyond the whole quotient
times the divisor. -/
lemma toRat_tmod_mantissaAt (hx : x.scale ≤ s) (hy : y.scale ≤ s) :
    (⟨(x.mantissaAt s).tmod (y.mantissaAt s), s⟩ : Decimal).toRat =
      x.toRat - towardZero (x.toRat / y.toRat) * y.toRat := by
  have hsplit : (x.mantissaAt s : ℚ) = y.mantissaAt s * (x.mantissaAt s).tdiv (y.mantissaAt s) +
      (x.mantissaAt s).tmod (y.mantissaAt s) := by
    exact_mod_cast (Int.mul_tdiv_add_tmod _ _).symm
  rw [← tdiv_mantissaAt hx hy, toRat_eq_mantissaAt hx, toRat_eq_mantissaAt hy, toRat, hsplit]
  ring

/-- What a number has beyond the whole quotient times the divisor is smaller than the divisor, and zero
or of the sign of the number. -/
lemma rest_bounds {a b : ℚ} (hb : b ≠ 0) : |a - towardZero (a / b) * b| < |b| ∧
    (a - towardZero (a / b) * b = 0 ∨
      SignType.sign (a - towardZero (a / b) * b) = SignType.sign a) := by
  have hrest : a - towardZero (a / b) * b = (a / b - towardZero (a / b)) * b := by
    rw [sub_mul, div_mul_cancel₀ _ hb]
  rw [hrest]
  constructor
  · rw [abs_mul]
    exact mul_lt_of_lt_one_left (abs_pos.mpr hb) (abs_sub_towardZero_lt _)
  · refine (sign_sub_towardZero (a / b)).imp (fun hzero => by rw [hzero, zero_mul]) fun hsign => ?_
    rw [sign_mul, hsign, ← sign_mul, div_mul_cancel₀ _ hb]

/-- The remainder, by the numbers. -/
lemma remainder?_eq (x y : Decimal) : x.remainder? y =
    if y.toRat = 0 ∨ 10 ^ 32 ≤ |towardZero (x.toRat / y.toRat)| then none
    else some ⟨(x.mantissaAt (max x.scale y.scale)).tmod (y.mantissaAt (max x.scale y.scale)),
      max x.scale y.scale⟩ := by
  have hlong : ∀ k : ℤ, workingDigits < digitCount k.natAbs ↔ 10 ^ 32 ≤ |k| := by
    intro k
    rw [← not_le, digitCount_le_iff workingDigits_pos, not_lt, workingDigits, Int.abs_eq_natAbs]
    exact_mod_cast Iff.rfl
  rw [remainder?]
  simp only [isZero_iff, hlong, tdiv_mantissaAt (le_max_left _ _) (le_max_right _ _), ite_or]

/-- The whole part of a decimal. -/
lemma toRat_trunc_eq (x : Decimal) : x.trunc.toRat = towardZero x.toRat := by
  rw [toRat_trunc, towardZero_eq_sign_mul]

/-- The fraction of a decimal. -/
lemma toRat_fract_eq (x : Decimal) : x.fract.toRat = x.toRat - towardZero x.toRat := by
  rw [← toRat_trunc_eq, trunc, toRat_sub, sub_sub_cancel]

/-- Where there is no fraction, there is an integer. -/
lemma isInteger_iff : x.isInteger = true ↔ ∃ k : ℤ, x.toRat = k := by
  refine ⟨fun h => ⟨towardZero x.toRat, ?_⟩, fun ⟨k, hk⟩ => isInteger_of_integer hk⟩
  rw [isInteger, isZero_iff, toRat_fract_eq] at h
  linarith

/-- The whole part as it is read off the mantissa. -/
lemma wholePart_eq (h : ¬ x.magnitude < 0) : x.wholePart = towardZero x.toRat := by
  have hsplit := wholePart_add_fract h
  rw [toRat_fract_eq] at hsplit
  have : (x.wholePart : ℚ) = towardZero x.toRat := by linarith
  exact_mod_cast this

/-- Without digits before the point the number is below one in size. -/
lemma abs_toRat_lt_one (h : x.isZero = true ∨ x.magnitude < 0) : |x.toRat| < 1 := by
  rcases h with hzero | hsmall
  · rw [(isZero_iff x).mp hzero, abs_zero]
    exact one_pos
  · exact (lt_zpow_magnitude x).trans_le (zpow_le_one_of_nonpos₀ (by norm_num) (by omega))

/-- With more than 19 digits before the point the whole part is out of the range of 64 bits. -/
lemma le_abs_towardZero_toRat (hzero : x.toRat ≠ 0) (hlong : 18 < x.magnitude) :
    10 ^ 19 ≤ |towardZero x.toRat| := by
  refine le_abs_towardZero ?_
  have hle : (10 : ℚ) ^ (19 : ℤ) ≤ |x.toRat| :=
    (zpow_le_zpow_right₀ (by norm_num) hlong).trans (zpow_magnitude_le hzero)
  exact_mod_cast hle

/-- **The 64-bit integer** of a decimal is its whole part, if that is in range. -/
theorem toInt64?_eq_some_iff :
    x.toInt64? = some n ↔ towardZero x.toRat = n ∧ -2 ^ 63 ≤ n ∧ n ≤ 2 ^ 63 - 1 := by
  rw [toInt64?_eq]
  split
  · next hsmall =>
    rw [Bool.or_eq_true, decide_eq_true_eq] at hsmall
    rw [towardZero_eq_zero (abs_toRat_lt_one hsmall), Option.some_inj]
    omega
  · next hlarge =>
    rw [Bool.or_eq_true, decide_eq_true_eq, not_or, isZero_iff] at hlarge
    split
    · next hlong =>
      have hsize := le_abs_towardZero_toRat hlarge.1 hlong
      rw [le_abs] at hsize
      simp only [reduceCtorEq, false_iff]
      omega
    · rw [wholePart_eq hlarge.2]
      simp only [isInt64_iff, ite_eq_iff, Option.some_inj, reduceCtorEq, and_false, or_false]
      omega

/-- The 64-bit integer of a decimal rounded to 21 digits is the rounded number, if that is an integer in
range. -/
lemma roundedInt64?_eq_some_iff : x.roundedInt64? = some n ↔
    roundSignificant 21 x.toRat = n ∧ -2 ^ 63 ≤ n ∧ n ≤ 2 ^ 63 - 1 := by
  have hround : (x.round integralDigits).toRat = roundSignificant 21 x.toRat :=
    toRat_round integralDigits_pos x
  rw [roundedInt64?]
  split
  · next hinteger =>
    obtain ⟨k, hk⟩ := isInteger_iff.mp hinteger
    rw [toInt64?_eq_some_iff, ← hround, hk, towardZero_intCast, Int.cast_inj]
  · next hfraction =>
    rw [isInteger_iff, not_exists, hround] at hfraction
    simp only [reduceCtorEq, false_iff, not_and]
    exact fun hvalue => absurd hvalue (hfraction n)

end Decimal

end DecimalCalculator
