import DecimalCalculator.Proofs.Decimal.Integral
import DecimalCalculator.Proofs.Decimal.Significant

/-!
Decimals that stand for equal numbers, in whatever representations.

* `Decimal.isZero_congr`, `Decimal.lt_congr`: **signs and comparisons** are those of the numbers.
* `Decimal.add_congr`, `Decimal.mul_congr`, `Decimal.div_congr`, `Decimal.round_congr`: **arithmetic**
  of equal numbers comes to equal numbers.
* `Decimal.toRat_fract`: the fraction, by the number alone. `Decimal.fract_congr`,
  `Decimal.toInt64?_congr`: **fractions and whole parts** are those of the numbers.
* `Decimal.remainder?_congr`, `Decimal.power?_congr`: equal numbers have equal **remainders and
  powers**, or none.
-/

namespace DecimalCalculator.Decimal

variable {x x' y y' : Decimal} {digits : ℕ} {s s' : ℤ}

/-- A decimal stands for the same number as itself. -/
lemma equiv_refl (x : Decimal) : x ≈ x := equiv_iff.mpr rfl

/-! ### Signs and comparisons -/

section Signs

lemma isZero_congr (h : x ≈ x') : x.isZero = x'.isZero := by
  rw [Bool.eq_iff_iff, isZero_iff, isZero_iff, equiv_iff.mp h]

lemma isPositive_congr (h : x ≈ x') : x.isPositive = x'.isPositive := by
  rw [Bool.eq_iff_iff, isPositive_iff, isPositive_iff, equiv_iff.mp h]

lemma isNegative_congr (h : x ≈ x') : x.isNegative = x'.isNegative := by
  rw [Bool.eq_iff_iff, isNegative_iff, isNegative_iff, equiv_iff.mp h]

lemma equiv_congr (hx : x ≈ x') (hy : y ≈ y') : x ≈ y ↔ x' ≈ y' := by
  rw [equiv_iff, equiv_iff, equiv_iff.mp hx, equiv_iff.mp hy]

lemma lt_congr (hx : x ≈ x') (hy : y ≈ y') : x < y ↔ x' < y' := by
  rw [lt_iff, lt_iff, equiv_iff.mp hx, equiv_iff.mp hy]

lemma le_congr (hx : x ≈ x') (hy : y ≈ y') : x ≤ y ↔ x' ≤ y' := by
  rw [le_iff, le_iff, equiv_iff.mp hx, equiv_iff.mp hy]

/-- Equal numbers other than zero have their first digit in the same place. -/
lemma magnitude_congr (h : x ≈ x') (hne : x.toRat ≠ 0) : x.magnitude = x'.magnitude := by
  have hne' : x'.toRat ≠ 0 := equiv_iff.mp h ▸ hne
  rw [← log_abs_toRat hne, ← log_abs_toRat hne', equiv_iff.mp h]

end Signs

/-! ### Arithmetic -/

section Arithmetic

lemma neg_congr (h : x ≈ x') : -x ≈ -x' :=
  equiv_iff.mpr (by rw [toRat_neg, toRat_neg, equiv_iff.mp h])

lemma abs_congr (h : x ≈ x') : x.abs ≈ x'.abs :=
  equiv_iff.mpr (by rw [toRat_abs, toRat_abs, equiv_iff.mp h])

lemma add_congr (hx : x ≈ x') (hy : y ≈ y') : x + y ≈ x' + y' :=
  equiv_iff.mpr (by rw [toRat_add, toRat_add, equiv_iff.mp hx, equiv_iff.mp hy])

lemma sub_congr (hx : x ≈ x') (hy : y ≈ y') : x - y ≈ x' - y' :=
  equiv_iff.mpr (by rw [toRat_sub, toRat_sub, equiv_iff.mp hx, equiv_iff.mp hy])

/-- **Rounding** equal numbers to the same number of digits gives equal numbers. -/
theorem round_congr (hdigits : 0 < digits) (h : x ≈ x') : x.round digits ≈ x'.round digits :=
  equiv_iff.mpr (by rw [toRat_round hdigits, toRat_round hdigits, equiv_iff.mp h])

/-- A rounded product is that of the numbers, rounded once. -/
lemma toRat_timesRounded (hdigits : 0 < digits) (x y : Decimal) :
    (x.timesRounded y digits).toRat = roundSignificant digits (x.toRat * y.toRat) := by
  rw [timesRounded, toRat_round hdigits, toRat_product]

lemma timesRounded_congr (hdigits : 0 < digits) (hx : x ≈ x') (hy : y ≈ y') :
    x.timesRounded y digits ≈ x'.timesRounded y' digits :=
  equiv_iff.mpr (by
    rw [toRat_timesRounded hdigits, toRat_timesRounded hdigits, equiv_iff.mp hx, equiv_iff.mp hy])

lemma mul_congr (hx : x ≈ x') (hy : y ≈ y') : x * y ≈ x' * y' :=
  timesRounded_congr workingDigits_pos hx hy

/-- **Quotients** of equal numbers are equal, however many digits the dividend and the divisor
hold. -/
theorem div_congr (hx : x ≈ x') (hy : y ≈ y') : x / y ≈ x' / y' :=
  equiv_iff.mpr (by rw [toRat_div, toRat_div, equiv_iff.mp hx, equiv_iff.mp hy])

lemma dividedBy_congr (h : x ≈ x') (n : ℕ) : x.dividedBy n ≈ x'.dividedBy n :=
  div_congr h (equiv_refl _)

lemma quotient?_congr (hx : x ≈ x') (hy : y ≈ y') :
    Option.Rel (· ≈ ·) (x.quotient? y) (x'.quotient? y') := by
  rw [quotient?, quotient?, isZero_congr hy]
  split
  · exact .none
  · exact .some (div_congr hx hy)

end Arithmetic

/-! ### Fractions and whole parts -/

section Integral

lemma fract_neg (x : Decimal) : (-x).fract = -x.fract := by
  have hzero : -(0 : Decimal) = 0 := rfl
  have hmod : (-x.mantissa).tmod (tenPow x.scale.toNat) =
      -x.mantissa.tmod (tenPow x.scale.toNat) := Int.neg_tmod _ _
  rw [fract, fract, magnitude_neg]
  change (if x.scale ≤ 0 then 0 else if x.magnitude < 0 then -x
    else ⟨(-x.mantissa).tmod (tenPow x.scale.toNat), x.scale⟩) = _
  split
  · exact hzero.symm
  · split
    · rfl
    · rw [hmod]
      rfl

/-- **The fraction** is that of the size of the number, with its sign. -/
theorem toRat_fract (x : Decimal) :
    x.fract.toRat = SignType.sign x.toRat * Int.fract |x.toRat| := by
  have hnonneg : ∀ z : Decimal, 0 ≤ z.toRat → z.fract.toRat = Int.fract z.toRat := by
    intro z hz
    obtain ⟨n, hn, hlow, hhigh⟩ := fract_spec hz
    refine (Int.fract_eq_iff.mpr ⟨hlow, hhigh, n, ?_⟩).symm
    rw [Int.cast_natCast]
    linarith
  rcases lt_trichotomy x.toRat 0 with hneg | hzero | hpos
  · have hopposite := hnonneg (-x) (by rw [toRat_neg]; linarith)
    rw [fract_neg, toRat_neg, toRat_neg] at hopposite
    rw [sign_neg hneg, abs_of_neg hneg, ← hopposite]
    simp
  · rw [hnonneg x hzero.ge, hzero]
    simp
  · rw [hnonneg x hpos.le, sign_pos hpos, abs_of_pos hpos, SignType.coe_one, one_mul]

lemma fract_congr (h : x ≈ x') : x.fract ≈ x'.fract :=
  equiv_iff.mpr (by rw [toRat_fract, toRat_fract, equiv_iff.mp h])

lemma trunc_congr (h : x ≈ x') : x.trunc ≈ x'.trunc := sub_congr h (fract_congr h)

lemma isInteger_congr (h : x ≈ x') : x.isInteger = x'.isInteger := isZero_congr (fract_congr h)

lemma integralDigits_pos : 0 < integralDigits := by decide

lemma hasFraction_congr (h : x ≈ x') : x.hasFraction = x'.hasFraction := by
  have hround := trunc_congr (round_congr integralDigits_pos h)
  rw [hasFraction, hasFraction]
  simp only [equiv_congr h hround]

lemma wholePart_congr (h : x ≈ x') (hlarge : ¬ x.magnitude < 0) (hlarge' : ¬ x'.magnitude < 0) :
    x.wholePart = x'.wholePart := by
  have hfract := equiv_iff.mp (fract_congr h)
  have hvalue := wholePart_add_fract hlarge
  rw [equiv_iff.mp h, ← wholePart_add_fract hlarge', hfract] at hvalue
  exact_mod_cast add_right_cancel hvalue

/-- **The 64-bit integer** of a number does not depend on the representation. -/
theorem toInt64?_congr (h : x ≈ x') : x.toInt64? = x'.toInt64? := by
  rw [toInt64?_eq, toInt64?_eq, isZero_congr h]
  by_cases hzero : x.toRat = 0
  · rw [(isZero_iff x').mpr (equiv_iff.mp h ▸ hzero)]
    rfl
  · have hmagnitude := magnitude_congr h hzero
    rw [hmagnitude]
    by_cases hsmall : x'.magnitude < 0
    · simp only [hsmall, decide_true, Bool.or_true, if_true]
    · rw [wholePart_congr h (hmagnitude ▸ hsmall) hsmall]

lemma roundedInt64?_congr (h : x ≈ x') : x.roundedInt64? = x'.roundedInt64? := by
  have hround := round_congr integralDigits_pos h
  simp only [roundedInt64?, isInteger_congr hround, toInt64?_congr hround]

end Integral

/-! ### Remainders -/

section Remainder

/-- Going on to a larger scale, a mantissa takes on zeros. -/
lemma mantissaAt_of_le (hx : x.scale ≤ s) (hs : s ≤ s') :
    x.mantissaAt s' = x.mantissaAt s * tenPow (s' - s).toNat := by
  have hsplit : (s' - x.scale).toNat = (s - x.scale).toNat + (s' - s).toNat := by omega
  rw [mantissaAt, mantissaAt, mul_assoc, hsplit, tenPow_eq, tenPow_eq, tenPow_eq, pow_add,
    Nat.cast_mul]

/-- At a common scale equal numbers have the same mantissa. -/
lemma mantissaAt_congr (h : x ≈ x') (hx : x.scale ≤ s) (hx' : x'.scale ≤ s) :
    x.mantissaAt s = x'.mantissaAt s := by
  have hvalue := equiv_iff.mp h
  rw [toRat_eq_mantissaAt hx, toRat_eq_mantissaAt hx'] at hvalue
  exact_mod_cast mul_right_cancel₀ (zpow_ten_pos (-s)).ne' hvalue

/-- The whole quotient at a larger scale is the same, and the remainder stands for the same
number. -/
lemma divide_mantissaAt (hx : x.scale ≤ s) (hy : y.scale ≤ s) (hs : s ≤ s') :
    (x.mantissaAt s').tdiv (y.mantissaAt s') = (x.mantissaAt s).tdiv (y.mantissaAt s) ∧
      (⟨(x.mantissaAt s').tmod (y.mantissaAt s'), s'⟩ : Decimal) ≈
        ⟨(x.mantissaAt s).tmod (y.mantissaAt s), s⟩ := by
  have hten : 0 < tenPow (s' - s).toNat := by
    rw [tenPow_eq]
    positivity
  have hrest : (x.mantissaAt s * tenPow (s' - s).toNat).tmod (y.mantissaAt s * tenPow (s' - s).toNat) =
      (⟨(x.mantissaAt s).tmod (y.mantissaAt s), s⟩ : Decimal).mantissaAt s' := by
    rw [Int.mul_comm, Int.mul_comm (y.mantissaAt s), Int.mul_tmod_mul_of_pos _ _ hten, Int.mul_comm]
    rfl
  rw [mantissaAt_of_le hx hs, mantissaAt_of_le hy hs, hrest]
  exact ⟨Int.mul_tdiv_mul_of_pos_left _ _ hten, equiv_iff.mpr (toRat_eq_mantissaAt hs).symm⟩

/-- **Remainders** of equal numbers are equal, or there is none. -/
theorem remainder?_congr (hx : x ≈ x') (hy : y ≈ y') :
    Option.Rel (· ≈ ·) (x.remainder? y) (x'.remainder? y') := by
  rw [remainder?, remainder?, isZero_congr hy]
  split
  · exact .none
  · -- both are compared at a scale that all four numbers have
    obtain ⟨m, hm, hm'⟩ : ∃ m, max x.scale y.scale ≤ m ∧ max x'.scale y'.scale ≤ m :=
      ⟨max (max x.scale y.scale) (max x'.scale y'.scale), le_max_left _ _, le_max_right _ _⟩
    obtain ⟨hwhole, hrest⟩ := divide_mantissaAt (x := x) (y := y) (le_max_left _ _)
      (le_max_right _ _) hm
    obtain ⟨hwhole', hrest'⟩ := divide_mantissaAt (x := x') (y := y') (le_max_left _ _)
      (le_max_right _ _) hm'
    rw [mantissaAt_congr hx (by omega) (by omega), mantissaAt_congr hy (by omega) (by omega)]
      at hwhole hrest
    simp only [← hwhole, ← hwhole']
    split
    · exact .none
    · exact .some (equiv_iff.mpr ((equiv_iff.mp hrest).symm.trans (equiv_iff.mp hrest')))

end Remainder

/-! ### Powers -/

section Power

lemma powerDigits_pos : 0 < powerDigits := by decide

/-- Repeated squaring of equal numbers comes to equal numbers. -/
lemma powerLoop_congr (bound n : ℕ) {base base' product product' : Decimal} (hbase : base ≈ base')
    (hproduct : product ≈ product') :
    powerLoop bound n base product ≈ powerLoop bound n base' product' := by
  induction bound generalizing n base base' product product' with
  | zero => exact hproduct
  | succ bound ih =>
    have htimes : (if n % 2 = 1 then product.timesRounded base powerDigits else product) ≈
        if n % 2 = 1 then product'.timesRounded base' powerDigits else product' := by
      split
      · exact timesRounded_congr powerDigits_pos hproduct hbase
      · exact hproduct
    simp only [powerLoop]
    split
    · exact htimes
    · exact ih (n / 2) (timesRounded_congr powerDigits_pos hbase hbase) htimes

/-- **Powers** of equal numbers are equal, or there is none. -/
theorem power?_congr (h : x ≈ x') (n : ℤ) :
    Option.Rel (· ≈ ·) (x.power? n) (x'.power? n) := by
  rw [power?, power?, isZero_congr h]
  split
  · exact .some (equiv_refl 1)
  · split
    · split
      · exact .some (equiv_refl 0)
      · exact .none
    · next hzero =>
      have hne : x.toRat ≠ 0 := fun hvalue => hzero ((isZero_iff x').mpr (equiv_iff.mp h ▸ hvalue))
      rw [magnitude_congr h hne]
      split
      · exact .none
      · have hloop := powerLoop_congr (n.natAbs.log2 + 1) n.natAbs h (equiv_refl 1)
        refine .some ?_
        split
        · exact div_congr (equiv_refl 1) hloop
        · exact round_congr workingDigits_pos hloop

end Power

end DecimalCalculator.Decimal
