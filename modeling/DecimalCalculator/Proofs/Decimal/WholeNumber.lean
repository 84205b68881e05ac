import DecimalCalculator.Proofs.Decimal.Equality

/-!
Decimals that stand for integers.

* `Decimal.toInt64?_of_integer`, `Decimal.roundedInt64?_of_integer`: **the 64-bit integer** of an
  integer is itself, if it is in range.
* `Decimal.hasFraction_eq_false_iff`: a number **without a fraction** is an integer which keeps its value
  when it is rounded to 21 digits.
* `Decimal.remainder?_two`: the remainder by two tells the parity of such an integer, and an odd one has
  it.
-/

namespace DecimalCalculator.Decimal

variable {x : Decimal} {k : ℤ}

/-! ### The 64-bit integer -/

/-- An integer has no fractional part. -/
lemma toRat_fract_of_integer (h : x.toRat = k) : x.fract.toRat = 0 := by
  rw [toRat_fract, h, ← Int.cast_abs, Int.fract_intCast, mul_zero]

lemma isInteger_of_integer (h : x.toRat = k) : x.isInteger = true :=
  (isZero_iff _).mpr (toRat_fract_of_integer h)

lemma wholePart_ofInt (k : ℤ) : (ofInt k).wholePart = k := mul_one k

/-- A 64-bit integer has at most nineteen digits. -/
lemma magnitude_ofInt_le (h : isInt64 k = true) : (ofInt k).magnitude ≤ 18 := by
  rw [isInt64_iff] at h
  have hdigits : digitCount k.natAbs ≤ 19 := (digitCount_le_iff (by norm_num)).mpr (by omega)
  change (digitCount k.natAbs : ℤ) - 1 - 0 ≤ 18
  omega

/-- **The 64-bit integer** of a number that stands for an integer. -/
theorem toInt64?_of_integer (h : x.toRat = k) :
    x.toInt64? = if isInt64 k then some k else none := by
  rw [toInt64?_congr (equiv_iff.mpr (h.trans (toRat_ofInt k).symm)), toInt64?_eq, wholePart_ofInt]
  have hmagnitude : ¬ (ofInt k).magnitude < 0 := by
    have := digitCount_pos k.natAbs
    change ¬ (digitCount k.natAbs : ℤ) - 1 - 0 < 0
    omega
  rw [decide_eq_false hmagnitude, Bool.or_false]
  split
  · next hzero =>
    obtain rfl : k = 0 := by simpa [isZero_iff] using hzero
    rfl
  · split
    · next hlarge => rw [if_neg fun hrange => absurd (magnitude_ofInt_le hrange) (not_le.mpr hlarge)]
    · rfl

/-- A 64-bit integer is not rounded to 21 digits. -/
lemma roundedInt64?_of_integer (h : x.toRat = k) (hrange : isInt64 k = true) :
    x.roundedInt64? = some k := by
  have hround : (x.round integralDigits).toRat = k := by
    have hrange := isInt64_iff.mp hrange
    rw [toRat_round integralDigits_pos, h]
    exact roundSignificant_intCast (abs_lt.mpr (by norm_num [integralDigits]; omega))
  rw [roundedInt64?, isInteger_of_integer hround, toInt64?_of_integer hround, if_pos hrange]
  rfl

/-! ### Numbers without a fraction -/

/-- The whole part of a number. -/
lemma toRat_trunc (x : Decimal) : x.trunc.toRat = (SignType.sign x.toRat * ⌊|x.toRat|⌋ : ℤ) := by
  have hsize := sign_mul_abs x.toRat
  rw [trunc, toRat_sub, toRat_fract, Int.fract]
  push_cast
  linear_combination -hsize

/-- The whole part of a number with few digits is not rounded. -/
lemma roundSignificant_trunc {digits : ℕ} (hdigits : 0 < digits) (h : x.precision ≤ digits) :
    roundSignificant digits x.trunc.toRat = x.trunc.toRat := by
  rcases le_or_gt x.scale 0 with hscale | hscale
  · have hvalue : x.trunc.toRat = x.toRat := by
      rw [trunc, toRat_sub, fract, if_pos hscale, toRat_zero, sub_zero]
    rw [hvalue, roundSignificant_toRat hdigits h]
  · -- the number has fewer digits in front of the point than it has digits
    have hsize : |x.toRat| < 10 ^ digits := by
      refine (lt_zpow_magnitude x).trans_le ?_
      rw [← zpow_natCast]
      exact zpow_le_zpow_right₀ (by norm_num) (by rw [magnitude]; omega)
    have hfloor : (⌊|x.toRat|⌋ : ℚ) < 10 ^ digits := (Int.floor_le _).trans_lt hsize
    have hfloor' : ⌊|x.toRat|⌋ < 10 ^ digits := by exact_mod_cast hfloor
    have hnonneg : 0 ≤ ⌊|x.toRat|⌋ := Int.floor_nonneg.mpr (abs_nonneg _)
    rw [toRat_trunc]
    refine roundSignificant_intCast (lt_of_le_of_lt ?_ hfloor')
    rw [abs_mul, abs_of_nonneg hnonneg]
    refine mul_le_of_le_one_left hnonneg ?_
    cases SignType.sign x.toRat <;> decide

/-- **A number without a fraction** is an integer whose value 21 digits hold. -/
theorem hasFraction_eq_false_iff :
    x.hasFraction = false ↔ ∃ k : ℤ, x.toRat = k ∧ (x.round integralDigits).toRat = k := by
  have hdecide : x.hasFraction = false ↔ x.toRat = (x.round integralDigits).trunc.toRat := by
    rw [hasFraction, ← equiv_iff, decide_eq_false_iff_not, not_not]
  rw [hdecide]
  constructor
  · intro hvalue
    have hround := roundSignificant_trunc integralDigits_pos
      (precision_round_le integralDigits_pos x)
    rw [← hvalue, ← toRat_round integralDigits_pos] at hround
    rw [toRat_trunc] at hvalue
    exact ⟨_, hvalue, hround.trans hvalue⟩
  · rintro ⟨k, hx, hround⟩
    rw [trunc, toRat_sub, toRat_fract_of_integer hround, hround, hx, sub_zero]

/-! ### Parity -/

/-- An integer that is longer than its mantissa ends in a zero. -/
lemma even_of_long (h : x.toRat = k) {digits : ℕ} (hprecision : x.precision ≤ digits)
    (hlong : 10 ^ digits ≤ |k|) : Even k := by
  have hscale : x.scale < 0 := by
    have hlow : (10 : ℚ) ^ (digits : ℤ) ≤ |x.toRat| := by
      rw [h, zpow_natCast, ← Int.cast_abs]
      exact_mod_cast hlong
    have hlarge := (zpow_lt_zpow_iff_right₀ (by norm_num)).mp (hlow.trans_lt (lt_zpow_magnitude x))
    rw [magnitude] at hlarge
    omega
  obtain ⟨zeros, hzeros⟩ : ∃ zeros, (-x.scale).toNat = zeros + 1 :=
    Nat.exists_eq_add_one_of_ne_zero (by omega)
  have hk : k = x.mantissa * tenPow (-x.scale).toNat := by
    rw [toRat_of_scale_nonpos hscale.le] at h
    exact_mod_cast h.symm
  rw [hk, hzeros, tenPow_eq, pow_succ, Nat.cast_mul]
  exact ((by decide : Even (10 : ℤ)).mul_left _).mul_left _

/-- **The remainder by two** of an integer of at most 21 digits, zeros at the end not counted. If the
whole quotient is too long, there is none, and the integer is even. -/
theorem remainder?_two (h : x.toRat = k) (hprecision : x.precision ≤ integralDigits) :
    (∃ rest, x.remainder? (ofInt 2) = some rest ∧ (rest.isZero = false ↔ Odd k)) ∨
      x.remainder? (ofInt 2) = none ∧ ¬ Odd k := by
  have hcongr := remainder?_congr (equiv_iff.mpr (h.trans (toRat_ofInt k).symm))
    (equiv_refl (ofInt 2))
  have hinteger : (ofInt k).remainder? (ofInt 2) =
      if workingDigits < digitCount (k.tdiv 2).natAbs then none else some ⟨k.tmod 2, 0⟩ := by
    change (if _ < digitCount ((k * 1).tdiv 2).natAbs then none
      else some (⟨(k * 1).tmod 2, 0⟩ : Decimal)) = _
    rw [mul_one]
  rw [hinteger] at hcongr
  generalize x.remainder? (ofInt 2) = remainder at hcongr ⊢
  split at hcongr
  · next hlong =>
    have hquotient : 10 ^ integralDigits ≤ (k.tdiv 2).natAbs := by
      by_contra hshort
      have hfew := (digitCount_le_iff integralDigits_pos).mpr (not_le.mp hshort)
      exact absurd (hfew.trans (by decide)) (not_le.mpr hlong)
    have hk : (10 : ℤ) ^ integralDigits ≤ |k| :=
      calc (10 : ℤ) ^ integralDigits ≤ (k.tdiv 2).natAbs := by exact_mod_cast hquotient
        _ ≤ |k| := by
          rw [Int.natAbs_tdiv, Int.abs_eq_natAbs]
          exact_mod_cast Nat.div_le_self _ _
    cases hcongr
    exact .inr ⟨rfl, Int.not_odd_iff_even.mpr (even_of_long h hprecision hk)⟩
  · cases hcongr with
    | some hrest =>
      refine .inl ⟨_, rfl, ?_⟩
      rw [isZero_congr hrest, isZero, decide_eq_false_iff_not, ← Int.not_even_iff_odd,
        even_iff_two_dvd, Int.dvd_iff_tmod_eq_zero]

end DecimalCalculator.Decimal
