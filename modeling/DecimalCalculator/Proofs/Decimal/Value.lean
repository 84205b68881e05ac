import Mathlib.Tactic
import DecimalCalculator.Decimal.Order

/-!
The rational numbers that decimals stand for.

* `pow_le_of_digitCount`, `lt_pow_digitCount`: **the number of digits** of a natural number, by the
  powers of ten around it.
* `Decimal.toRat`: the mantissa times a power of ten. Sums, differences and opposites of decimals
  are those of the numbers.
* `Decimal.plus_assoc`, `Decimal.plus_minus_assoc`: **sums** may be grouped in any way, down to the
  mantissa and scale.
* `Decimal.zpow_magnitude_le`, `Decimal.lt_zpow_magnitude`: the size of a number by its first digit.
* `Decimal.order_eq_compare`: **decimals are in the order of the numbers**, and so for `<`, `≤`
  and `≈`.
-/

namespace DecimalCalculator

/-! ### Counting digits -/

/-- A number has at least one digit. -/
lemma countDigits_pos (bound n : ℕ) : 0 < countDigits bound n := by
  cases bound with
  | zero => exact one_pos
  | succ bound =>
    rw [countDigits]
    split
    · exact one_pos
    · exact Nat.succ_pos _

/-- Dividing by ten counts the digits of a number, if the bound suffices. -/
lemma countDigits_spec {bound n : ℕ} (hbound : n < 10 ^ (bound + 1)) :
    n < 10 ^ countDigits bound n ∧ (0 < n → 10 ^ (countDigits bound n - 1) ≤ n) := by
  induction bound generalizing n with
  | zero => exact ⟨by simpa [countDigits] using hbound, fun hn => hn⟩
  | succ bound ih =>
    rw [countDigits]
    split
    · next hsmall => exact ⟨by simpa using hsmall, fun hn => hn⟩
    · next hlarge =>
      have htenth : n / 10 < 10 ^ (bound + 1) := by
        rw [Nat.div_lt_iff_lt_mul (by norm_num), ← pow_succ]
        exact hbound
      obtain ⟨hlt, hle⟩ := ih htenth
      refine ⟨?_, fun _ => ?_⟩
      · rw [pow_succ]
        omega
      · have hpos := countDigits_pos bound (n / 10)
        have hpow := hle (by omega)
        have hsplit : 10 ^ (countDigits bound (n / 10) + 1 - 1) =
            10 ^ (countDigits bound (n / 10) - 1) * 10 := by
          rw [← pow_succ]
          congr 1
          omega
        omega

/-- The digits that are known from the binary logarithm of a number are no more than it has. -/
lemma pow_known_le {n : ℕ} (hn : 0 < n) : 10 ^ (59 * n.log2 / 196) ≤ n := by
  have hlog : 2 ^ n.log2 ≤ n := Nat.log2_self_le hn.ne'
  refine le_trans ?_ hlog
  refine (Nat.pow_le_pow_iff_left (n := 196) (by norm_num)).mp ?_
  calc (10 ^ (59 * n.log2 / 196)) ^ 196 = 10 ^ (59 * n.log2 / 196 * 196) := by rw [pow_mul]
    _ ≤ 10 ^ (59 * n.log2) := Nat.pow_le_pow_right (by norm_num) (Nat.div_mul_le_self _ _)
    _ = (10 ^ 59) ^ n.log2 := by rw [pow_mul]
    _ ≤ (2 ^ 196) ^ n.log2 := Nat.pow_le_pow_left (by norm_num) _
    _ = (2 ^ n.log2) ^ 196 := by rw [← pow_mul, ← pow_mul, mul_comm]

/-- A number has at least one digit, and the bound of the count suffices for what is not known. -/
lemma digitCount_spec (n : ℕ) :
    0 < digitCount n ∧ n < 10 ^ digitCount n ∧ (0 < n → 10 ^ (digitCount n - 1) ≤ n) := by
  set known := 59 * n.log2 / 196 with hknown
  have hcount : digitCount n = known + countDigits n.log2 (n / 10 ^ known) := rfl
  have hpos := countDigits_pos n.log2 (n / 10 ^ known)
  have hbound : n / 10 ^ known < 10 ^ (n.log2 + 1) :=
    calc n / 10 ^ known ≤ n := Nat.div_le_self _ _
      _ < 2 ^ (n.log2 + 1) := Nat.lt_log2_self
      _ ≤ 10 ^ (n.log2 + 1) := Nat.pow_le_pow_left (by norm_num) _
  obtain ⟨hlt, hle⟩ := countDigits_spec hbound
  have hten : 0 < 10 ^ known := by positivity
  refine ⟨by omega, ?_, fun hn => ?_⟩
  · rw [hcount, pow_add, mul_comm]
    exact (Nat.div_lt_iff_lt_mul hten).mp hlt
  · have hquotient : 0 < n / 10 ^ known := Nat.div_pos (pow_known_le hn) hten
    have hsplit : digitCount n - 1 = countDigits n.log2 (n / 10 ^ known) - 1 + known := by omega
    rw [hsplit, pow_add]
    exact (Nat.le_div_iff_mul_le hten).mp (hle hquotient)

/-- A number has at least one digit. -/
lemma digitCount_pos (n : ℕ) : 0 < digitCount n := (digitCount_spec n).1

/-- **Digits**: a number is below the power of ten with as many zeros as it has digits. -/
theorem lt_pow_digitCount (n : ℕ) : n < 10 ^ digitCount n := (digitCount_spec n).2.1

/-- **Digits**: a positive number reaches the power of ten with one zero less than it has digits. -/
theorem pow_le_of_digitCount {n : ℕ} (hn : 0 < n) : 10 ^ (digitCount n - 1) ≤ n :=
  (digitCount_spec n).2.2 hn

/-- A number has at most `k` digits if it is below the power of ten. -/
lemma digitCount_le_iff {n k : ℕ} (hk : 0 < k) : digitCount n ≤ k ↔ n < 10 ^ k := by
  constructor
  · intro hle
    exact lt_of_lt_of_le (lt_pow_digitCount n) (Nat.pow_le_pow_right (by norm_num) hle)
  · intro hlt
    rcases Nat.eq_zero_or_pos n with rfl | hn
    · exact hk
    · have hpow := lt_of_le_of_lt (pow_le_of_digitCount hn) hlt
      have := (Nat.pow_lt_pow_iff_right (by norm_num)).mp hpow
      omega

/-- A power of ten among the integers is one of natural numbers. -/
lemma tenPow_eq (k : ℕ) : tenPow k = ((10 ^ k : ℕ) : ℤ) := rfl

namespace Decimal

/-! ### Values -/

/-- The number that a decimal stands for. -/
def toRat (x : Decimal) : ℚ := x.mantissa * 10 ^ (-x.scale)

variable (x y : Decimal)

/-- A power of ten is positive. -/
lemma zpow_ten_pos (n : ℤ) : (0 : ℚ) < 10 ^ n := by positivity

/-- An integer stands for itself. -/
@[simp] lemma toRat_ofInt (n : ℤ) : (ofInt n).toRat = n := by simp [toRat, ofInt]

@[simp] lemma toRat_zero : (0 : Decimal).toRat = 0 := by
  rw [show (0 : Decimal) = ofInt 0 from rfl, toRat_ofInt, Int.cast_zero]

@[simp] lemma toRat_one : (1 : Decimal).toRat = 1 := by
  rw [show (1 : Decimal) = ofInt 1 from rfl, toRat_ofInt, Int.cast_one]

@[simp] lemma toRat_neg : (-x).toRat = -x.toRat := by
  rw [toRat, toRat, show (-x).mantissa = -x.mantissa from rfl, show (-x).scale = x.scale from rfl]
  push_cast
  ring

@[simp] lemma toRat_abs : x.abs.toRat = |x.toRat| := by
  rw [toRat, toRat, abs_mul, abs_of_pos (zpow_ten_pos _), ← Int.cast_abs]
  rw [Int.abs_eq_natAbs]
  rfl

/-- A size is not negative. -/
lemma toRat_abs_nonneg : 0 ≤ x.abs.toRat := by
  rw [toRat_abs]
  exact abs_nonneg _

/-- A decimal is zero if its number is. -/
lemma isZero_iff : x.isZero = true ↔ x.toRat = 0 := by
  rw [isZero, decide_eq_true_eq, toRat, mul_eq_zero_iff_right (zpow_ten_pos _).ne',
    Int.cast_eq_zero]

/-- A decimal is not zero if its number is not. -/
lemma isZero_eq_false_iff : x.isZero = false ↔ x.toRat ≠ 0 := by
  rw [← Bool.not_eq_true, isZero_iff]

/-- A decimal is positive if its number is. -/
lemma isPositive_iff : x.isPositive = true ↔ 0 < x.toRat := by
  rw [isPositive, decide_eq_true_eq, toRat, mul_pos_iff_of_pos_right (zpow_ten_pos _), Int.cast_pos]

/-- A decimal is negative if its number is. -/
lemma isNegative_iff : x.isNegative = true ↔ x.toRat < 0 := by
  rw [isNegative, decide_eq_true_eq, ← not_le, ← not_le, toRat,
    mul_nonneg_iff_of_pos_right (zpow_ten_pos _), Int.cast_nonneg_iff]

variable {x y}

/-- A number has one sign. -/
lemma not_isPositive_of_isNegative (h : x.isNegative = true) : ¬ x.isPositive = true := by
  rw [isPositive_iff, not_lt]
  exact ((isNegative_iff x).mp h).le

lemma not_isNegative_of_isPositive (h : x.isPositive = true) : ¬ x.isNegative = true :=
  fun hnegative => not_isPositive_of_isNegative hnegative h

lemma not_isZero_of_isNegative (h : x.isNegative = true) : ¬ x.isZero = true := by
  rw [isZero_iff]
  exact ((isNegative_iff x).mp h).ne

lemma not_isZero_of_isPositive (h : x.isPositive = true) : ¬ x.isZero = true := by
  rw [isZero_iff]
  exact ((isPositive_iff x).mp h).ne'

/-- The mantissa of a number that is not zero is not zero. -/
lemma mantissa_ne_zero (h : x.toRat ≠ 0) : x.mantissa ≠ 0 := by
  have := (isZero_eq_false_iff x).mpr h
  rwa [isZero, decide_eq_false_iff_not] at this

/-- The mantissa of a number that is not negative is not negative. -/
lemma mantissa_nonneg (h : 0 ≤ x.toRat) : 0 ≤ x.mantissa := by
  by_contra hneg
  have hvalue := (isNegative_iff x).mp (by simpa [isNegative] using hneg)
  exact absurd h (not_le.mpr hvalue)

/-- The mantissa of zero has one digit. -/
lemma precision_of_toRat_eq_zero (h : x.toRat = 0) : x.precision = 1 := by
  have hmantissa := (isZero_iff x).mpr h
  rw [isZero, decide_eq_true_eq] at hmantissa
  rw [precision, hmantissa]
  rfl

/-- The number of a decimal from its mantissa at a larger scale. -/
lemma toRat_eq_mantissaAt {s : ℤ} (h : x.scale ≤ s) : x.toRat = x.mantissaAt s * 10 ^ (-s) := by
  have hpow : (tenPow (s - x.scale).toNat : ℚ) = 10 ^ (s - x.scale) := by
    rw [tenPow_eq, Int.cast_natCast, Nat.cast_pow, ← zpow_natCast, Int.toNat_of_nonneg (by omega)]
    norm_num
  rw [mantissaAt, Int.cast_mul, hpow, mul_assoc, ← zpow_add₀ (by norm_num), toRat]
  congr 2
  ring

variable (x y)

/-- Sums are exact. -/
@[simp] theorem toRat_add : (x + y).toRat = x.toRat + y.toRat := by
  rw [toRat_eq_mantissaAt (le_max_left x.scale y.scale),
    toRat_eq_mantissaAt (le_max_right x.scale y.scale), ← add_mul, ← Int.cast_add]
  rfl

/-- Differences are exact. -/
@[simp] theorem toRat_sub : (x - y).toRat = x.toRat - y.toRat := by
  rw [toRat_eq_mantissaAt (le_max_left x.scale y.scale),
    toRat_eq_mantissaAt (le_max_right x.scale y.scale), ← sub_mul, ← Int.cast_sub]
  rfl

/-- A sum has the larger scale. -/
lemma scale_add : (x + y).scale = max x.scale y.scale := rfl

/-- A difference has the larger scale. -/
lemma scale_sub : (x - y).scale = max x.scale y.scale := rfl

variable {x y}

/-- A decimal is determined by its number and its scale. -/
lemma eq_of_toRat_eq (hvalue : x.toRat = y.toRat) (hscale : x.scale = y.scale) : x = y := by
  obtain ⟨m, s⟩ := x
  obtain ⟨n, r⟩ := y
  obtain rfl : s = r := hscale
  have hmantissa : (m : ℚ) = n := mul_right_cancel₀ (zpow_ten_pos (-s)).ne' hvalue
  rw [Int.cast_inj.mp hmantissa]

/-- **Sums** may be grouped in any way, mantissa and scale being the same. -/
theorem plus_assoc (x y z : Decimal) : x + y + z = x + (y + z) := by
  refine eq_of_toRat_eq ?_ ?_
  · simp only [toRat_add]
    ring
  · simp only [scale_add, max_assoc]

/-- A difference may be taken from the second part of a sum. -/
theorem plus_minus_assoc (x y z : Decimal) : x + y - z = x + (y - z) := by
  refine eq_of_toRat_eq ?_ ?_
  · simp only [toRat_add, toRat_sub]
    ring
  · simp only [scale_add, scale_sub, max_assoc]

/-! ### Sizes -/

/-- A number other than zero reaches the power of ten of its first digit. -/
theorem zpow_magnitude_le (hx : x.toRat ≠ 0) : (10 : ℚ) ^ x.magnitude ≤ |x.toRat| := by
  have hmantissa : 0 < x.mantissa.natAbs := Int.natAbs_pos.mpr (mantissa_ne_zero hx)
  have hpos := digitCount_pos x.mantissa.natAbs
  have hdigits : (10 : ℚ) ^ (x.precision - 1 : ℤ) ≤ |(x.mantissa : ℚ)| := by
    have hle := pow_le_of_digitCount hmantissa
    rw [← Int.cast_abs, Int.abs_eq_natAbs, Int.cast_natCast]
    have hexponent : (x.precision - 1 : ℤ) = ((digitCount x.mantissa.natAbs - 1 : ℕ) : ℤ) := by
      rw [precision]
      omega
    rw [hexponent, zpow_natCast]
    exact_mod_cast hle
  rw [toRat, abs_mul, abs_of_pos (zpow_ten_pos _), magnitude, sub_eq_add_neg (_ - 1 : ℤ),
    zpow_add₀ (by norm_num)]
  exact mul_le_mul_of_nonneg_right hdigits (zpow_ten_pos _).le

/-- A number is below the power of ten above its first digit. -/
theorem lt_zpow_magnitude (x : Decimal) : |x.toRat| < 10 ^ (x.magnitude + 1) := by
  have hdigits : |(x.mantissa : ℚ)| < (10 : ℚ) ^ (x.precision : ℤ) := by
    have hlt := lt_pow_digitCount x.mantissa.natAbs
    rw [← Int.cast_abs, Int.abs_eq_natAbs, Int.cast_natCast, precision, zpow_natCast]
    exact_mod_cast hlt
  rw [toRat, abs_mul, abs_of_pos (zpow_ten_pos _), magnitude,
    show (x.precision - 1 - x.scale + 1 : ℤ) = x.precision + -x.scale by ring,
    zpow_add₀ (by norm_num)]
  exact mul_lt_mul_of_pos_right hdigits (zpow_ten_pos _)

/-! ### Order -/

/-- The sign of the mantissa is that of the number. -/
lemma sign_mantissa (x : Decimal) :
    x.mantissa.sign = 1 ∧ 0 < x.toRat ∨ x.mantissa.sign = 0 ∧ x.toRat = 0 ∨
      x.mantissa.sign = -1 ∧ x.toRat < 0 := by
  rcases lt_trichotomy x.mantissa 0 with h | h | h
  · refine Or.inr (Or.inr ⟨Int.sign_eq_neg_one_of_neg h, ?_⟩)
    rw [← isNegative_iff]
    simpa [isNegative] using h
  · exact Or.inr (Or.inl ⟨by simp [h], by simp [toRat, h]⟩)
  · refine Or.inl ⟨Int.sign_eq_one_of_pos h, ?_⟩
    rw [← isPositive_iff]
    simpa [isPositive] using h

/-- Of two numbers, the one with the smaller magnitude is smaller in size. -/
lemma abs_toRat_lt_of_magnitude (hy : y.toRat ≠ 0) (h : x.magnitude < y.magnitude) :
    |x.toRat| < |y.toRat| :=
  calc |x.toRat| < 10 ^ (x.magnitude + 1) := lt_zpow_magnitude x
    _ ≤ 10 ^ y.magnitude := zpow_le_zpow_right₀ (by norm_num) (by omega)
    _ ≤ |y.toRat| := zpow_magnitude_le hy

/-- Numbers brought to a common scale compare as their mantissas do there. -/
lemma compare_mantissaAt {s : ℤ} (hx : x.scale ≤ s) (hy : y.scale ≤ s) :
    compare (x.mantissaAt s) (y.mantissaAt s) = compare x.toRat y.toRat := by
  rw [toRat_eq_mantissaAt hx, toRat_eq_mantissaAt hy]
  have hmono : StrictMono fun n : ℤ => (n : ℚ) * 10 ^ (-s) := fun m n hmn =>
    mul_lt_mul_of_pos_right (Int.cast_lt.mpr hmn) (zpow_ten_pos _)
  rw [← cmp_eq_compare, ← cmp_eq_compare]
  exact (hmono.cmp_map_eq _ _).symm

/-- **The order of decimals** is that of their numbers. -/
theorem order_eq_compare (x y : Decimal) : x.order y = compare x.toRat y.toRat := by
  rw [order]
  rcases sign_mantissa x with ⟨hx, hxpos⟩ | ⟨hx, hxzero⟩ | ⟨hx, hxneg⟩ <;>
    rcases sign_mantissa y with ⟨hy, hypos⟩ | ⟨hy, hyzero⟩ | ⟨hy, hyneg⟩ <;>
    rw [hx, hy]
  · -- both positive: the larger magnitude is the larger number
    have hmantissa : ¬ x.mantissa < 0 := by
      intro h
      rw [Int.sign_eq_neg_one_of_neg h] at hx
      exact absurd hx (by decide)
    have hne : x.mantissa ≠ 0 := by
      intro h
      rw [h] at hx
      exact absurd hx (by decide)
    rw [show compare (1 : ℤ) 1 = .eq from rfl]
    simp only [hne, hmantissa, if_false]
    cases hmagnitude : compare x.magnitude y.magnitude with
    | eq => exact compare_mantissaAt (le_max_left _ _) (le_max_right _ _)
    | lt =>
      have := abs_toRat_lt_of_magnitude hypos.ne' (compare_lt_iff_lt.mp hmagnitude)
      rw [abs_of_pos hxpos, abs_of_pos hypos] at this
      exact (compare_lt_iff_lt.mpr this).symm
    | gt =>
      have := abs_toRat_lt_of_magnitude hxpos.ne' (compare_gt_iff_gt.mp hmagnitude)
      rw [abs_of_pos hxpos, abs_of_pos hypos] at this
      exact (compare_gt_iff_gt.mpr this).symm
  · exact (compare_gt_iff_gt.mpr (by rw [hyzero]; exact hxpos)).symm
  · exact (compare_gt_iff_gt.mpr (hyneg.trans hxpos)).symm
  · exact (compare_lt_iff_lt.mpr (by rw [hxzero]; exact hypos)).symm
  · have hmantissa : x.mantissa = 0 := Int.sign_eq_zero_iff_zero.mp hx
    rw [hxzero, hyzero, show compare (0 : ℤ) 0 = .eq from rfl, compare_eq_iff_eq.mpr rfl]
    simp [hmantissa]
  · exact (compare_gt_iff_gt.mpr (by rw [hxzero]; exact hyneg)).symm
  · exact (compare_lt_iff_lt.mpr (hxneg.trans hypos)).symm
  · exact (compare_lt_iff_lt.mpr (by rw [hyzero]; exact hxneg)).symm
  · -- both negative: the larger magnitude is the smaller number
    have hmantissa : x.mantissa < 0 := Int.sign_eq_neg_one_iff_neg.mp hx
    rw [show compare (-1 : ℤ) (-1) = .eq from rfl]
    simp only [hmantissa.ne, hmantissa, if_false, if_true]
    cases hmagnitude : compare x.magnitude y.magnitude with
    | eq => exact compare_mantissaAt (le_max_left _ _) (le_max_right _ _)
    | lt =>
      have := abs_toRat_lt_of_magnitude hyneg.ne (compare_lt_iff_lt.mp hmagnitude)
      rw [abs_of_neg hxneg, abs_of_neg hyneg] at this
      exact (compare_gt_iff_gt.mpr (by linarith)).symm
    | gt =>
      have := abs_toRat_lt_of_magnitude hxneg.ne (compare_gt_iff_gt.mp hmagnitude)
      rw [abs_of_neg hxneg, abs_of_neg hyneg] at this
      exact (compare_lt_iff_lt.mpr (by linarith)).symm

/-- Decimals compare as their numbers do. -/
theorem lt_iff : x < y ↔ x.toRat < y.toRat := by
  rw [show x < y ↔ x.order y = .lt from Iff.rfl, order_eq_compare, compare_lt_iff_lt]

theorem le_iff : x ≤ y ↔ x.toRat ≤ y.toRat := by
  rw [show x ≤ y ↔ x.order y ≠ .gt from Iff.rfl, order_eq_compare, compare_le_iff_le]

theorem equiv_iff : x ≈ y ↔ x.toRat = y.toRat := by
  rw [show x ≈ y ↔ x.order y = .eq from Iff.rfl, order_eq_compare, compare_eq_iff_eq]

end Decimal

end DecimalCalculator
