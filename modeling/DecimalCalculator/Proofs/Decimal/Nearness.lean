import Mathlib.Analysis.Complex.Exponential
import DecimalCalculator.Proofs.Decimal.Significant

/-!
Relative errors of real numbers, and those of the operations on decimals.

* `IsNear`: a number is another one up to a relative error. It passes through products and
  reciprocals, and the errors of several steps multiply (`IsNear.trans`, `IsNear.mul`, `IsNear.inv`).
* `one_add_pow_le`: many small relative errors together are at most twice their sum.
* `Decimal.near_mul`, `Decimal.near_div`: **each operation** at the working precision has a relative
  error of at most `10 ^ (-31)`.
* `Decimal.near_mul_halfUnit`, `Decimal.near_div_halfUnit`: it is half of that, where a bound needs
  it.
* `Decimal.powerLoop_near`: **repeated squaring** has the error of one rounding for each factor.
-/

namespace DecimalCalculator

/-! ### Relative errors -/

/-- The number `a` is `b` up to a relative error. -/
def IsNear (ε a b : ℝ) : Prop := |a - b| ≤ ε * |b|

namespace IsNear

variable {ε δ a b c d : ℝ}

/-- A number has no error to itself. -/
lemma refl (a : ℝ) : IsNear 0 a a := by simp [IsNear]

/-- A larger error is one too. -/
lemma mono (h : IsNear ε a b) (hle : ε ≤ δ) : IsNear δ a b :=
  h.trans (mul_le_mul_of_nonneg_right hle (abs_nonneg b))

/-- The size of a number near another one. -/
lemma abs_le_mul (h : IsNear ε a b) : |a| ≤ (1 + ε) * |b| := by
  have := abs_sub_abs_le_abs_sub a b
  rw [IsNear] at h
  linarith

/-- The size of a number near another one, from below. -/
lemma mul_le_abs (h : IsNear ε a b) : (1 - ε) * |b| ≤ |a| := by
  have := abs_sub_abs_le_abs_sub b a
  rw [IsNear, abs_sub_comm] at h
  linarith

/-- The sign makes no difference. -/
lemma neg (h : IsNear ε a b) : IsNear ε (-a) (-b) := by
  rwa [IsNear, neg_sub_neg, abs_sub_comm, abs_neg]

/-- One error after another. -/
theorem trans (h : IsNear ε a b) (h' : IsNear δ b c) (hε : 0 ≤ ε) :
    IsNear ((1 + ε) * (1 + δ) - 1) a c := by
  have hb : ε * |b| ≤ ε * ((1 + δ) * |c|) := mul_le_mul_of_nonneg_left h'.abs_le_mul hε
  rw [IsNear] at h h' ⊢
  calc |a - c| ≤ |a - b| + |b - c| := abs_sub_le a b c
    _ ≤ ε * ((1 + δ) * |c|) + δ * |c| := add_le_add (h.trans hb) h'
    _ = ((1 + ε) * (1 + δ) - 1) * |c| := by ring

/-- The error of a product. -/
theorem mul (h : IsNear ε a b) (h' : IsNear δ c d) :
    IsNear ((1 + ε) * (1 + δ) - 1) (a * c) (b * d) := by
  have hnonneg : 0 ≤ ε * |b| := (abs_nonneg _).trans h
  have hsplit : a * c - b * d = (a - b) * (c - d) + (a - b) * d + b * (c - d) := by ring
  have hboth : |(a - b) * (c - d)| ≤ ε * |b| * (δ * |d|) := by
    rw [abs_mul]
    exact mul_le_mul h h' (abs_nonneg _) hnonneg
  have hleft : |(a - b) * d| ≤ ε * |b| * |d| := by
    rw [abs_mul]
    exact mul_le_mul_of_nonneg_right h (abs_nonneg d)
  have hright : |b * (c - d)| ≤ |b| * (δ * |d|) := by
    rw [abs_mul]
    exact mul_le_mul_of_nonneg_left h' (abs_nonneg b)
  rw [IsNear, hsplit, abs_mul b d]
  calc |(a - b) * (c - d) + (a - b) * d + b * (c - d)|
      ≤ |(a - b) * (c - d)| + |(a - b) * d| + |b * (c - d)| := abs_add_three _ _ _
    _ ≤ ε * |b| * (δ * |d|) + ε * |b| * |d| + |b| * (δ * |d|) :=
        add_le_add (add_le_add hboth hleft) hright
    _ = ((1 + ε) * (1 + δ) - 1) * (|b| * |d|) := by ring

/-- The error of a reciprocal. -/
theorem inv (h : IsNear ε a b) (hε : ε < 1) (hb : b ≠ 0) : IsNear (ε / (1 - ε)) a⁻¹ b⁻¹ := by
  have hpos : 0 < |b| := abs_pos.mpr hb
  have hrest : 0 < 1 - ε := by linarith
  have hlarge : 0 < (1 - ε) * |b| := mul_pos hrest hpos
  have ha : 0 < |a| := hlarge.trans_le h.mul_le_abs
  have hane : a ≠ 0 := abs_pos.mp ha
  have hnonneg : 0 ≤ ε * |b| := (abs_nonneg _).trans h
  have hsplit : a⁻¹ - b⁻¹ = (b - a) / (a * b) := by field_simp
  rw [IsNear, hsplit, abs_div, abs_mul, abs_inv, abs_sub_comm]
  calc |a - b| / (|a| * |b|) ≤ ε * |b| / ((1 - ε) * |b| * |b|) :=
        div_le_div₀ hnonneg h (by positivity) (mul_le_mul_of_nonneg_right h.mul_le_abs hpos.le)
    _ = ε / (1 - ε) * |b|⁻¹ := by field_simp

end IsNear

/-- Many small relative errors together are at most twice their sum. -/
lemma one_add_pow_le {δ : ℝ} (hδ : 0 ≤ δ) {n : ℕ} (hn : 2 * n * δ ≤ 1) :
    (1 + δ) ^ n ≤ 1 + 2 * n * δ := by
  induction n with
  | zero => simp
  | succ n ih =>
    push_cast at hn ⊢
    have hless : 2 * n * δ ≤ 1 := by linarith
    have hgrown : 2 * n * δ * δ ≤ 1 * δ := mul_le_mul_of_nonneg_right hless hδ
    calc (1 + δ) ^ (n + 1) = (1 + δ) ^ n * (1 + δ) := pow_succ _ _
      _ ≤ (1 + 2 * n * δ) * (1 + δ) := mul_le_mul_of_nonneg_right (ih hless) (by linarith)
      _ ≤ 1 + 2 * (n + 1) * δ := by linarith

/-! ### Operations -/

namespace Decimal

/-- The real number that a decimal stands for. -/
noncomputable def toReal (x : Decimal) : ℝ := (x.toRat : ℝ)

variable (x y : Decimal)

@[simp] lemma toReal_one : (1 : Decimal).toReal = 1 := by simp [toReal]

@[simp] lemma toReal_zero : (0 : Decimal).toReal = 0 := by simp [toReal]

@[simp] lemma toReal_add : (x + y).toReal = x.toReal + y.toReal := by simp [toReal]

@[simp] lemma toReal_sub : (x - y).toReal = x.toReal - y.toReal := by simp [toReal]

@[simp] lemma toReal_neg : (-x).toReal = -x.toReal := by simp [toReal]

@[simp] lemma toReal_abs : x.abs.toReal = |x.toReal| := by simp [toReal]

@[simp] lemma toReal_ofInt (n : ℤ) : (ofInt n).toReal = n := by simp [toReal]

/-- The relative error of an operation at the working precision. -/
noncomputable def workingError : ℝ := 1 / 10 ^ 31

/-- A bound on rational numbers is one on real numbers. -/
lemma isNear_of_abs_sub_le {ε a b : ℚ} (h : |a - b| ≤ |b| * ε) : IsNear ε a b := by
  rw [IsNear, mul_comm]
  exact_mod_cast h

/-- The error of rounding. -/
lemma near_round {digits : ℕ} (hdigits : 0 < digits) :
    IsNear (1 / (2 * 10 ^ (digits - 1))) (x.round digits).toReal x.toReal := by
  have h := abs_round_sub_le hdigits x
  rw [div_eq_mul_one_div] at h
  have hnear := isNear_of_abs_sub_le h
  push_cast at hnear
  exact hnear

/-- The error of a product that is rounded to some digits. -/
lemma near_timesRounded {digits : ℕ} (hdigits : 0 < digits) :
    IsNear (1 / (2 * 10 ^ (digits - 1))) (x.timesRounded y digits).toReal (x.toReal * y.toReal) := by
  have h := near_round ⟨x.mantissa * y.mantissa, x.scale + y.scale⟩ hdigits
  rw [toReal, toReal, toRat_product, Rat.cast_mul] at h
  exact h

/-- **The error of a product** at the working precision. -/
theorem near_mul : IsNear workingError (x * y).toReal (x.toReal * y.toReal) := by
  have h := isNear_of_abs_sub_le (abs_mul_sub_le x y)
  rw [relativeError] at h
  push_cast at h
  exact h

variable {y}

/-- **The error of a quotient** at the working precision. -/
theorem near_div (hy : y.toReal ≠ 0) : IsNear workingError (x / y).toReal (x.toReal / y.toReal) := by
  have hy' : y.toRat ≠ 0 := fun hzero => hy (by rw [toReal, hzero, Rat.cast_zero])
  have h := isNear_of_abs_sub_le (abs_div_sub_le x hy')
  rw [relativeError] at h
  push_cast at h
  exact h

/-- Half a unit in the last digit of the working precision, relative to the number. -/
noncomputable def halfUnit : ℝ := 1 / (2 * 10 ^ 31)

lemma halfUnit_nonneg : 0 ≤ halfUnit := by norm_num [halfUnit]

/-- **The error of rounding** a rational number is half a unit in the last digit. -/
theorem near_roundSignificant (q : ℚ) : IsNear halfUnit (roundSignificant workingDigits q) q := by
  have h := abs_roundSignificant_sub_le workingDigits_pos q
  rw [div_eq_mul_one_div] at h
  have hnear := isNear_of_abs_sub_le h
  push_cast at hnear
  exact hnear

/-- **The error of a product** is half a unit in the last digit. -/
theorem near_mul_halfUnit (x y : Decimal) : IsNear halfUnit (x * y).toReal (x.toReal * y.toReal) :=
  near_timesRounded x y workingDigits_pos

/-- **The error of a quotient** is half a unit in the last digit. -/
theorem near_div_halfUnit (hy : y.toReal ≠ 0) :
    IsNear halfUnit (x / y).toReal (x.toReal / y.toReal) := by
  have hy' : y.toRat ≠ 0 := fun hzero => hy (by rw [toReal, hzero, Rat.cast_zero])
  rcases eq_or_ne x.toRat 0 with hx | hx
  · simp [IsNear, toReal, hx, div_eq_zero ((isZero_iff x).mpr hx)]
  · have h := abs_roundSignificant_sub_le workingDigits_pos (x.toRat / y.toRat)
    rw [← toRat_div_of_ne_zero hx hy', div_eq_mul_one_div |x.toRat / y.toRat|] at h
    have hnear := isNear_of_abs_sub_le h
    push_cast at hnear
    exact hnear

/-! ### Powers -/

/-- The relative error of one product of a power. -/
noncomputable def powerError : ℝ := 1 / (2 * 10 ^ 39)

/-- A product of a power is rounded after the errors of its factors. -/
lemma timesRounded_near {x y : Decimal} {a c α γ δ : ℝ} (hx : IsNear α x.toReal a)
    (hy : IsNear γ y.toReal c) (hδ : (1 + α) * (1 + γ) * (1 + powerError) = 1 + δ) :
    IsNear δ (x.timesRounded y powerDigits).toReal (a * c) := by
  have herror : 0 ≤ powerError := by norm_num [powerError]
  have htimes : IsNear powerError (x.timesRounded y powerDigits).toReal (x.toReal * y.toReal) := by
    have h := near_timesRounded x y (show 0 < powerDigits by decide)
    rwa [show powerDigits - 1 = 39 from rfl] at h
  refine (htimes.trans (hx.mul hy) herror).mono (le_of_eq ?_)
  rw [← sub_eq_iff_eq_add'.mpr hδ]
  ring

/-- **Repeated squaring** has the error of one rounding, and that of the base, for each factor. -/
theorem powerLoop_near {bound n : ℕ} (hbound : n < 2 ^ bound) {base product : Decimal} {b p β π : ℝ}
    (hbase : IsNear β base.toReal b) (hproduct : IsNear π product.toReal p) :
    IsNear ((1 + π) * ((1 + β) * (1 + powerError)) ^ n - 1)
      (powerLoop bound n base product).toReal (p * b ^ n) := by
  have hrounded : 1 + powerError ≠ 0 := by norm_num [powerError]
  set growth := (1 + β) * (1 + powerError) with hgrowth
  -- a power of the base has been rounded once less often than a product with it
  refine powerLoop_induction
    (B := fun k y => IsNear (growth ^ k / (1 + powerError) - 1) y.toReal (b ^ k))
    (Q := fun k y => IsNear ((1 + π) * growth ^ k - 1) y.toReal (p * b ^ k))
    hbound ?_ ?_ ?_ ?_
  · intro k y _ hy
    rw [pow_add b]
    refine timesRounded_near hy hy ?_
    field_simp
    ring
  · intro k l y z _ hy hz
    rw [pow_add b, ← mul_assoc]
    refine timesRounded_near hy hz ?_
    field_simp
    ring
  · rw [pow_one, pow_one, hgrowth, mul_div_assoc, div_self hrounded, mul_one, add_sub_cancel_left]
    exact hbase
  · simpa using hproduct

end Decimal

end DecimalCalculator
