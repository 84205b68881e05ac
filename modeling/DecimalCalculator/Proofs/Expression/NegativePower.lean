import DecimalCalculator.Proofs.Decimal.Negation
import DecimalCalculator.Proofs.Decimal.WholeNumber
import DecimalCalculator.Proofs.Elementary.Failures

/-!
Powers of negative numbers.

* `Elementary.pow_of_isNegative`: **through the exponential function** the power of a negative number
  takes its sign from the parity of the exponent.
* `raise_of_isNegative`: **the power of a negative number** is that of its size with the sign of the
  parity, whether it goes by repeated squaring or not, and fails as that does.
-/

namespace DecimalCalculator

open Decimal

variable {base exponent : Decimal} {k : ℤ}

namespace Decimal

/-! ### Sizes -/

/-- A negative number is the opposite of its size. -/
lemma eq_neg_abs (h : base.isNegative = true) : base = -base.abs := by
  rw [isNegative, decide_eq_true_eq] at h
  obtain ⟨m, s⟩ := base
  change (⟨m, s⟩ : Decimal) = ⟨-(m.natAbs : ℤ), s⟩
  congr 1
  have hm : m < 0 := h
  omega

lemma isPositive_abs (h : base.isNegative = true) : base.abs.isPositive = true := by
  rw [isPositive_iff, toRat_abs]
  exact abs_pos.mpr ((isNegative_iff base).mp h).ne

end Decimal

/-! ### The exponential function -/

namespace Elementary

/-- The logarithm of a positive number. -/
lemma ln_of_isPositive (h : base.isPositive = true) : ∃ l, ln base = .ok l := by
  rw [ln, h]
  split
  · exact absurd ‹_› (by decide)
  · split
    · exact ⟨0, rfl⟩
    · exact ⟨_, rfl⟩

/-- The power of a positive number has an exponent of any kind. -/
lemma pow_ne_fractional (h : base.isPositive = true) :
    pow base exponent ≠ .error .fractionalPowerOfNegative := by
  obtain ⟨l, hl⟩ := ln_of_isPositive h
  rw [pow, if_pos h, hl]
  split
  · simp
  · intro hfailure
    rcases exp_eq_error hfailure with hf | hf <;> exact absurd hf (by decide)

/-- **Through the exponential function** a negative number has the power of its size, up to the sign:
the remainder by two is zero, or missing, just for the even exponents. -/
theorem pow_of_isNegative (hbase : base.isNegative = true) (hfraction : exponent.hasFraction = false)
    (hk : exponent.toRat = k) (hround : (exponent.round integralDigits).toRat = k) :
    pow base exponent = (pow base.abs exponent).map fun v => if Odd k then -v else v := by
  rw [pow, pow, if_pos (isPositive_abs hbase)]
  by_cases hzero : exponent.isZero = true
  · obtain rfl : k = 0 := by exact_mod_cast hk.symm.trans ((isZero_iff exponent).mp hzero)
    rw [if_pos hzero, if_pos hzero]
    rfl
  · obtain ⟨l, hl⟩ := ln_of_isPositive (isPositive_abs hbase)
    rw [if_neg hzero, if_neg hzero, if_neg (not_isPositive_of_isNegative hbase),
      if_neg (not_isZero_of_isNegative hbase), if_neg (Bool.eq_false_iff.mp hfraction), hl]
    change (exp (exponent * l) >>= _) = (exp (exponent * l)).map _
    cases exp (exponent * l) with
    | error f => rfl
    | ok size =>
      obtain ⟨rest, hrest, hodd⟩ | ⟨hrest, heven⟩ :=
        remainder?_two hround (precision_round_le integralDigits_pos exponent)
      · change Except.ok _ = Except.ok _
        simp only [hrest, ← hodd, Bool.not_eq_true']
      · change Except.ok _ = Except.ok _
        simp only [hrest, if_neg heven, Bool.false_eq_true, if_false]

end Elementary

/-! ### Powers of values -/

/-- A small exponent is the integer that the exponent stands for. -/
lemma smallExponent?_eq (hk : exponent.toRat = k) {n : ℤ} (h : smallExponent? exponent = some n) :
    n = k := by
  rw [smallExponent?, toInt64?_of_integer hk] at h
  split at h
  · change (if _ then some k else none) = some n at h
    split at h
    · exact (Option.some.inj h).symm
    · exact absurd h (by simp)
  · exact absurd h (by simp)

/-- The power of a positive number never wants an exponent without a fraction. -/
lemma raise_ne_fractional (h : base.isPositive = true) :
    raise base exponent ≠ .error .fractionalPowerOfNegative := by
  rw [raise, if_neg fun hzero => not_isZero_of_isPositive h hzero.1,
    if_neg fun hnegative => not_isNegative_of_isPositive h hnegative.1]
  split
  · simp
  · exact Elementary.pow_ne_fractional h

/-- A negative number has the power of its size, up to the sign. -/
lemma raise_eq_map (hbase : base.isNegative = true) (hfraction : exponent.hasFraction = false)
    (hk : exponent.toRat = k) (hround : (exponent.round integralDigits).toRat = k) :
    raise base exponent = (raise base.abs exponent).map fun v => if Odd k then -v else v := by
  have hpositive := isPositive_abs hbase
  have hpower : (smallExponent? exponent).bind base.power? =
      ((smallExponent? exponent).bind base.abs.power?).map fun v => if Odd k then -v else v := by
    cases hsmall : smallExponent? exponent with
    | none => rfl
    | some n =>
      obtain rfl := smallExponent?_eq hk hsmall
      change base.power? n = (base.abs.power? n).map _
      conv_lhs => rw [eq_neg_abs hbase, power?_neg]
  rw [raise, raise, if_neg fun hzero => not_isZero_of_isNegative hbase hzero.1,
    if_neg fun h => Bool.eq_false_iff.mp hfraction h.2,
    if_neg fun hzero => not_isZero_of_isPositive hpositive hzero.1,
    if_neg fun hnegative => not_isNegative_of_isPositive hpositive hnegative.1, hpower]
  cases (smallExponent? exponent).bind base.abs.power? with
  | none => exact Elementary.pow_of_isNegative hbase hfraction hk hround
  | some value => rfl

/-- **Powers of negative numbers.** An exponent with a fraction is refused, and no other is. Without one
the exponent is an integer, and the power is that of the size of the number with its sign
changed if the integer is odd; if there is no power of the size, there is none of the number, for
the same cause. -/
theorem raise_of_isNegative (hbase : base.isNegative = true) :
    (raise base exponent = .error .fractionalPowerOfNegative ↔ exponent.hasFraction = true) ∧
      (exponent.hasFraction = false → ∃ k : ℤ, exponent.toRat = k ∧
        raise base exponent = (raise base.abs exponent).map fun v => if Odd k then -v else v) := by
  cases hfraction : exponent.hasFraction with
  | true =>
    refine ⟨iff_of_true ?_ rfl, fun h => absurd h (by decide)⟩
    rw [raise, if_neg fun hzero => not_isZero_of_isNegative hbase hzero.1,
      if_pos ⟨hbase, hfraction⟩]
  | false =>
    obtain ⟨k, hk, hround⟩ := hasFraction_eq_false_iff.mp hfraction
    have hraise := raise_eq_map hbase hfraction hk hround
    refine ⟨iff_of_false (fun hrefused => ?_) (by decide), fun _ => ⟨k, hk, hraise⟩⟩
    rw [hraise] at hrefused
    have hne : raise base.abs exponent ≠ _ := raise_ne_fractional (isPositive_abs hbase)
    generalize raise base.abs exponent = power at hrefused hne
    cases power with
    | error f => exact hne (congrArg _ (Except.error.inj hrefused))
    | ok value => exact absurd hrefused (by simp [Except.map])

/-- A negative base at an odd exponent beyond 32 bits, where the exponential function takes over. -/
theorem raise_of_isNegative_large :
    (⟨-10000000001, 10⟩ : Decimal).isNegative = true ∧
      (raise ⟨-10000000001, 10⟩ (ofInt 2147483649) = .error .fractionalPowerOfNegative ↔
        (ofInt 2147483649).hasFraction = true) ∧
      raise ⟨-10000000001, 10⟩ (ofInt 2147483649) =
        (raise ⟨10000000001, 10⟩ (ofInt 2147483649)).map fun v => -v := by
  have hbase : (⟨-10000000001, 10⟩ : Decimal).isNegative = true := by decide
  obtain ⟨hrefused, hpower⟩ : (raise _ (ofInt 2147483649) = _ ↔ _) ∧ _ :=
    raise_of_isNegative hbase
  obtain ⟨k, hk, hraise⟩ := hpower (by decide)
  obtain rfl : 2147483649 = k := by exact_mod_cast (toRat_ofInt 2147483649).symm.trans hk
  simp only [if_pos (by decide : Odd (2147483649 : ℤ))] at hraise
  exact ⟨hbase, hrefused, hraise⟩

end DecimalCalculator
