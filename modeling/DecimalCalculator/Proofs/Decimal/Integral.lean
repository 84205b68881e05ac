import DecimalCalculator.Decimal.Integral
import DecimalCalculator.Proofs.Decimal.Value

/-!
The whole part and the fraction of a number, above all of one that is not negative.

* `Decimal.isInt64_iff`: the range of 64 bits.
* `Decimal.toInt64?_spec`: the 64-bit integer of a number is its whole part, and equals it if the
  number is an integer.
* `Decimal.exists_toInt64?`: numbers of moderate size have one.
* `Decimal.wholePart_add_fract`: a number that is not below one in size is its whole part and its
  fraction. `Decimal.fract_spec`: the fraction is what the number has beyond a whole number, and
  `Decimal.precision_fract_le`: it has no more digits.
-/

namespace DecimalCalculator.Decimal

variable {x : Decimal} {n : ℤ}

/-- The range of 64 bits. -/
lemma isInt64_iff : isInt64 n = true ↔ -2 ^ 63 ≤ n ∧ n < 2 ^ 63 := by
  rw [isInt64, Bool.and_eq_true, decide_eq_true_eq, decide_eq_true_eq]
  norm_num

/-- What is at most the largest integer of 64 bits in size is one of them. -/
lemma isInt64_of_abs_le (h : |n| ≤ 2 ^ 63 - 1) : isInt64 n = true := by
  rw [abs_le] at h
  rw [isInt64_iff]
  omega

/-- A number below one that is not zero has a fraction only. -/
lemma scale_pos_of_magnitude_neg (h : x.magnitude < 0) : 0 < x.scale := by
  have hpos := digitCount_pos x.mantissa.natAbs
  rw [magnitude, precision] at h
  omega

/-- The truncated quotient by a power of ten is the whole part. -/
lemma tdiv_tenPow_bounds (hx : 0 ≤ x.toRat) (hscale : 0 < x.scale) :
    ((x.mantissa.tdiv (tenPow x.scale.toNat) : ℤ) : ℚ) ≤ x.toRat ∧
      x.toRat < (x.mantissa.tdiv (tenPow x.scale.toNat) : ℤ) + 1 ∧
      (x.mantissa.tmod (tenPow x.scale.toNat) = 0 →
        x.toRat = (x.mantissa.tdiv (tenPow x.scale.toNat) : ℤ)) := by
  have hmantissa := mantissa_nonneg hx
  have hten : 0 < tenPow x.scale.toNat := by
    rw [tenPow_eq]
    positivity
  have hten' : (0 : ℚ) < (tenPow x.scale.toNat : ℤ) := by exact_mod_cast hten
  have hvalue : x.toRat = x.mantissa / (tenPow x.scale.toNat : ℤ) := by
    have hpow : ((tenPow x.scale.toNat : ℤ) : ℚ) = 10 ^ x.scale := by
      rw [tenPow_eq, Int.cast_natCast, Nat.cast_pow, ← zpow_natCast, Int.toNat_of_nonneg hscale.le]
      norm_num
    rw [hpow, toRat, zpow_neg, div_eq_mul_inv]
  have hsplit := Int.mul_tdiv_add_tmod x.mantissa (tenPow x.scale.toNat)
  have hlow := Int.tmod_nonneg (tenPow x.scale.toNat) hmantissa
  have hhigh := Int.tmod_lt_of_pos x.mantissa hten
  generalize x.mantissa.tdiv (tenPow x.scale.toNat) = q at *
  generalize x.mantissa.tmod (tenPow x.scale.toNat) = r at *
  rw [hvalue, le_div_iff₀ hten', div_lt_iff₀ hten', div_eq_iff hten'.ne', ← hsplit]
  refine ⟨?_, ?_, ?_⟩
  · have : (0 : ℚ) ≤ r := by exact_mod_cast hlow
    push_cast
    linarith
  · have : (r : ℚ) < (tenPow x.scale.toNat : ℤ) := by exact_mod_cast hhigh
    push_cast
    linarith
  · rintro rfl
    push_cast
    ring

/-- At a scale that is not positive a number is its mantissa with zeros. -/
lemma toRat_of_scale_nonpos (hscale : x.scale ≤ 0) :
    x.toRat = (x.mantissa * tenPow (-x.scale).toNat : ℤ) := by
  have := toRat_eq_mantissaAt (x := x) hscale
  rw [mantissaAt, zero_sub, neg_zero, zpow_zero, mul_one] at this
  exact this

/-- **The whole part** of a number that is not negative, and the number itself if it is an
integer. -/
theorem toInt64?_spec (hx : 0 ≤ x.toRat) (h : x.toInt64? = some n) :
    (n : ℚ) ≤ x.toRat ∧ x.toRat < n + 1 ∧ (x.isInteger = true → x.toRat = n) := by
  rw [toInt64?] at h
  split at h
  · next hsmall =>
    obtain rfl : 0 = n := Option.some.inj h
    rw [Bool.or_eq_true, decide_eq_true_eq, isZero_iff] at hsmall
    rcases hsmall with hzero | hsmall
    · rw [hzero]
      norm_num
    · -- a number below one is an integer only if it is zero
      have hlt := lt_zpow_magnitude x
      have hone : (10 : ℚ) ^ (x.magnitude + 1) ≤ 1 :=
        zpow_le_one_of_nonpos₀ (by norm_num) (by omega)
      rw [abs_of_nonneg hx] at hlt
      refine ⟨by simpa using hx, by push_cast; linarith, fun hinteger => ?_⟩
      rw [isInteger, fract, if_neg (not_le.mpr (scale_pos_of_magnitude_neg hsmall)), if_pos hsmall,
        isZero_iff] at hinteger
      rw [hinteger, Int.cast_zero]
  · next hlarge =>
    split at h
    · exact absurd h (by simp)
    · have whole : ∀ k : ℤ, (if isInt64 k then some k else none) = some n → k = n := by
        intro k hk
        split at hk
        · exact Option.some.inj hk
        · exact absurd hk (by simp)
      simp only at h
      split at h
      · next hscale =>
        obtain rfl := whole _ h
        rw [toRat_of_scale_nonpos hscale]
        exact ⟨le_rfl, by linarith, fun _ => rfl⟩
      · next hscale =>
        obtain rfl := whole _ h
        obtain ⟨hle, hlt, heq⟩ := tdiv_tenPow_bounds hx (not_le.mp hscale)
        refine ⟨hle, hlt, fun hinteger => heq ?_⟩
        rw [Bool.or_eq_true, decide_eq_true_eq, not_or] at hlarge
        rw [isInteger, fract, if_neg hscale, if_neg hlarge.2, isZero, decide_eq_true_eq] at hinteger
        exact hinteger

/-- A number of moderate size has a whole part in 64 bits. -/
lemma exists_toInt64? (hx : 0 ≤ x.toRat) (hlt : x.toRat < 10 ^ 18) : ∃ n, x.toInt64? = some n := by
  rw [toInt64?]
  split
  · exact ⟨0, rfl⟩
  · next hlarge =>
    rw [Bool.or_eq_true, decide_eq_true_eq, not_or] at hlarge
    have hne : x.toRat ≠ 0 := fun hzero => hlarge.1 ((isZero_iff x).mpr hzero)
    have hmagnitude : ¬ 18 < x.magnitude := by
      intro hlarge
      have hsize := zpow_magnitude_le hne
      have : (10 : ℚ) ^ (18 : ℤ) ≤ 10 ^ x.magnitude := zpow_le_zpow_right₀ (by norm_num) hlarge.le
      rw [abs_of_nonneg hx] at hsize
      norm_num at this hlt
      linarith
    rw [if_neg hmagnitude]
    simp only
    -- the whole part is between zero and the number
    have range : ∀ k : ℤ, -1 < (k : ℚ) → (k : ℚ) ≤ x.toRat →
        ∃ n, (if isInt64 k then some k else none) = some n := by
      intro k hlow hhigh
      have hk : (k : ℚ) < (10 ^ 18 : ℤ) := by
        push_cast
        linarith
      have hk' : k < 10 ^ 18 := by exact_mod_cast hk
      have hk'' : -1 < k := by exact_mod_cast hlow
      refine ⟨k, if_pos ?_⟩
      rw [isInt64_iff]
      omega
    split
    · next hscale =>
      have := toRat_of_scale_nonpos hscale
      exact range _ (by linarith) (by linarith)
    · next hscale =>
      obtain ⟨hle, hlt, -⟩ := tdiv_tenPow_bounds hx (not_le.mp hscale)
      exact range _ (by linarith) hle

/-- The whole part of a number, as it is read off the mantissa. -/
def wholePart (x : Decimal) : ℤ :=
  if x.scale ≤ 0 then x.mantissa * tenPow (-x.scale).toNat
  else x.mantissa.tdiv (tenPow x.scale.toNat)

/-- The 64-bit integer of a number is its whole part, if that is in range. -/
lemma toInt64?_eq (x : Decimal) : x.toInt64? =
    if x.isZero || x.magnitude < 0 then some 0
    else if 18 < x.magnitude then none
    else if isInt64 x.wholePart then some x.wholePart else none := rfl

/-- A number that is not below one in size is its whole part and its fraction. -/
lemma wholePart_add_fract (h : ¬ x.magnitude < 0) : x.wholePart + x.fract.toRat = x.toRat := by
  rw [wholePart, fract]
  split
  · next hscale => rw [toRat_of_scale_nonpos hscale, toRat_zero, add_zero]
  · next hscale =>
    have hpow : ((tenPow x.scale.toNat : ℤ) : ℚ) * 10 ^ (-x.scale) = 1 := by
      rw [tenPow_eq, Int.cast_natCast, Nat.cast_pow, Nat.cast_ofNat, ← zpow_natCast,
        Int.toNat_of_nonneg (not_le.mp hscale).le, ← zpow_add₀ (by norm_num), add_neg_cancel,
        zpow_zero]
    have hsplit : (x.mantissa : ℚ) = tenPow x.scale.toNat * x.mantissa.tdiv (tenPow x.scale.toNat) +
        x.mantissa.tmod (tenPow x.scale.toNat) := by
      exact_mod_cast (Int.mul_tdiv_add_tmod x.mantissa (tenPow x.scale.toNat)).symm
    rw [toRat, toRat, hsplit]
    linear_combination -(x.mantissa.tdiv (tenPow x.scale.toNat) : ℚ) * hpow

/-- **The fraction** of a number that is not negative is between zero and one, and what it leaves is a
whole number. -/
theorem fract_spec (hx : 0 ≤ x.toRat) :
    ∃ n : ℕ, x.toRat = n + x.fract.toRat ∧ 0 ≤ x.fract.toRat ∧ x.fract.toRat < 1 := by
  have hmantissa := mantissa_nonneg hx
  rw [fract]
  split
  · next hscale =>
    have hten : 0 ≤ tenPow (-x.scale).toNat := by
      rw [tenPow_eq]
      positivity
    obtain ⟨n, hn⟩ := Int.eq_ofNat_of_zero_le (mul_nonneg hmantissa hten)
    refine ⟨n, ?_, le_of_eq toRat_zero.symm, by rw [toRat_zero]; exact one_pos⟩
    rw [toRat_of_scale_nonpos hscale, hn, toRat_zero, add_zero, Int.cast_natCast]
  · next hscale =>
    split
    · next hsmall =>
      have hlt := lt_zpow_magnitude x
      have hone : (10 : ℚ) ^ (x.magnitude + 1) ≤ 1 :=
        zpow_le_one_of_nonpos₀ (by norm_num) (by omega)
      rw [abs_of_nonneg hx] at hlt
      exact ⟨0, by simp, hx, hlt.trans_le hone⟩
    · next hlarge =>
      -- the digits behind the point
      obtain ⟨hle, hlt, -⟩ := tdiv_tenPow_bounds hx (not_le.mp hscale)
      have hten : 0 ≤ tenPow x.scale.toNat := by
        rw [tenPow_eq]
        positivity
      obtain ⟨n, hn⟩ := Int.eq_ofNat_of_zero_le (Int.tdiv_nonneg hmantissa hten)
      have hvalue := wholePart_add_fract hlarge
      rw [wholePart, fract, if_neg hscale, if_neg hscale, if_neg hlarge, hn, Int.cast_natCast]
        at hvalue
      rw [hn, Int.cast_natCast] at hle hlt
      exact ⟨n, hvalue.symm, by linarith, by linarith⟩

/-- The fraction has no more digits than the number. -/
lemma precision_fract_le (x : Decimal) : x.fract.precision ≤ x.precision := by
  have hpos : 0 < x.precision := digitCount_pos _
  rw [fract]
  split
  · exact hpos
  · split
    · exact le_rfl
    · rw [precision, digitCount_le_iff hpos, Int.natAbs_tmod]
      exact (Nat.mod_le _ _).trans_lt (lt_pow_digitCount _)

end DecimalCalculator.Decimal
