import DecimalCalculator.Proofs.Decimal.LastPlace
import DecimalCalculator.Proofs.Elementary.PowerExtent

/-!
How accurate integer powers are.

* `Decimal.compounded_le`: the errors of many roundings together are hardly more than their sum.
* `Decimal.powerLoop_isNear`: **repeated squaring** is off by the error of one rounding for each
  factor, and so is the reciprocal of what it comes to.
* `Decimal.power?_accurate`: **integer powers** with exponents below `10 ^ 7` are within a unit of
  the last digit. `Decimal.not_forall_power?_accurate`: with large exponents they are not.
-/

namespace DecimalCalculator

namespace Decimal

variable {x v : Decimal} {n : ℤ}

/-! ### The error of repeated squaring -/

/-- So many roundings are few for the digits that are kept between them. -/
lemma few_roundings {m : ℕ} (hm : m ≤ 2 ^ 31) : 8 * (m * powerError) * (m + 1) ≤ 1 := by
  have hm' : (m : ℝ) ≤ 2 ^ 31 := by exact_mod_cast hm
  have hpos : 0 ≤ powerError := by norm_num [powerError]
  calc 8 * (m * powerError) * (m + 1) ≤ 8 * (2 ^ 31 * powerError) * (2 ^ 31 + 1) := by gcongr
    _ ≤ 1 := by norm_num [powerError]

/-- The error of many roundings together. -/
noncomputable def compoundedError (m : ℕ) : ℝ := (1 + powerError) ^ m - 1

/-- **Many roundings**: their error together, also as that of a divisor, is at most the sum of their
errors and one more. -/
lemma compoundedError_le {m : ℕ} (hm : m ≤ 2 ^ 31) :
    0 ≤ compoundedError m ∧ compoundedError m < 1 ∧
      compoundedError m / (1 - compoundedError m) ≤ (m + 1) * powerError := by
  have hpos : 0 < powerError := by norm_num [powerError]
  have hfew := few_roundings hm
  set u := powerError with hu
  set w := (m : ℝ) * u with hw
  set e := compoundedError m with he
  have hw0 : 0 ≤ w := by positivity
  have hgrown : 0 ≤ e := sub_nonneg.mpr (one_le_pow₀ (by linarith))
  have hw1 : w ≤ 1 / 8 := by
    have : 0 ≤ w * m := by positivity
    linarith
  have hu1 : u ≤ 1 := by norm_num [hu, powerError]
  -- by the inequality of Bernoulli
  have hproduct : (1 + e) * (1 - w) ≤ 1 := by
    have hbernoulli : 1 - w ≤ (1 - u) ^ m := by
      have := one_add_mul_le_pow (show (-2 : ℝ) ≤ -u by linarith) m
      rwa [mul_neg, ← sub_eq_add_neg, ← sub_eq_add_neg] at this
    calc (1 + e) * (1 - w) ≤ (1 + u) ^ m * (1 - u) ^ m := by
          rw [he, compoundedError, add_sub_cancel]
          exact mul_le_mul_of_nonneg_left hbernoulli (by positivity)
      _ = (1 - u * u) ^ m := by
          rw [← mul_pow]
          ring
      _ ≤ 1 := pow_le_one₀ (by nlinarith) (by nlinarith)
  have hle : e ≤ 2 * w := by nlinarith
  refine ⟨hgrown, by linarith, ?_⟩
  rw [div_le_iff₀ (by linarith)]
  have hsquare : e * (2 * w + u) ≤ u := by
    calc e * (2 * w + u) ≤ 2 * w * (2 * w + u) := by gcongr
      _ = u * (4 * w * m + 2 * w) := by
        rw [hw]
        ring
      _ ≤ u * 1 := by
        refine mul_le_mul_of_nonneg_left ?_ hpos.le
        have : 0 ≤ w * m := by positivity
        linarith
      _ = u := mul_one u
  have hsum : (m + 1) * u = w + u := by
    rw [hw]
    ring
  rw [hsum]
  nlinarith

/-- **Repeated squaring** is off by the error of one rounding for each factor, and so is the
reciprocal of what it comes to. -/
theorem powerLoop_isNear {m : ℕ} (hm : m ≤ 2 ^ 31) (hx : x.toRat ≠ 0) :
    IsNear ((m + 1) * powerError) (powerLoop (m.log2 + 1) m x 1).toReal (x.toReal ^ m) ∧
      IsNear ((m + 1) * powerError) (powerLoop (m.log2 + 1) m x 1).toReal⁻¹ (x.toReal ^ m)⁻¹ := by
  have hone : IsNear 0 (1 : Decimal).toReal 1 := by
    rw [toReal_one]
    exact IsNear.refl 1
  have hloop := powerLoop_near m.lt_log2_self (IsNear.refl x.toReal) hone
  rw [one_mul, add_zero, one_mul, one_mul, ← compoundedError] at hloop
  obtain ⟨hnonneg, hlt, hle⟩ := compoundedError_le hm
  have hx' : x.toReal ≠ 0 := by
    rw [toReal]
    exact_mod_cast hx
  refine ⟨hloop.mono (le_trans ?_ hle), (hloop.inv hlt (pow_ne_zero m hx')).mono hle⟩
  rw [le_div_iff₀ (by linarith)]
  nlinarith

/-- The error of a power, on rational numbers. -/
lemma abs_sub_le_of_isNear {m : ℕ} {t q : ℚ} (h : IsNear ((m + 1) * powerError) t q) :
    |t - q| ≤ (m + 1) / (2 * 10 ^ 39) * |q| := by
  rw [IsNear, powerError, mul_one_div] at h
  refine (Rat.cast_le (K := ℝ)).mp ?_
  push_cast
  exact h

/-- **A power** is a number close to the exact one, rounded to the working precision. -/
lemma exists_power (hx : x.toRat ≠ 0) (h : x.power? n = some v) :
    ∃ t, v.toRat = roundSignificant workingDigits t ∧
      |t - x.toRat ^ n| ≤ (n.natAbs + 1) / (2 * 10 ^ 39) * |x.toRat ^ n| := by
  cases power?_cases h with
  | one =>
    have hround : roundSignificant workingDigits ((1 : ℤ) : ℚ) = (1 : ℤ) :=
      roundSignificant_intCast (by decide)
    refine ⟨1, by rw [toRat_one]; exact_mod_cast hround.symm, ?_⟩
    rw [zpow_zero, sub_self, abs_zero]
    positivity
  | zero hzero => exact absurd hzero hx
  | rounded m _ _ hm =>
    obtain ⟨hpower, -⟩ := powerLoop_isNear ((le_of_le_scaleLimit hm).trans (by norm_num)) hx
    refine ⟨_, toRat_round workingDigits_pos _, ?_⟩
    rw [Int.natAbs_natCast, zpow_natCast]
    refine abs_sub_le_of_isNear ?_
    push_cast
    exact hpower
  | inverted m _ _ hm =>
    obtain ⟨-, hinverse⟩ := powerLoop_isNear ((le_of_le_scaleLimit hm).trans (by norm_num)) hx
    refine ⟨(powerLoop (m.log2 + 1) m x 1).toRat⁻¹, by rw [toRat_div, toRat_one, one_div], ?_⟩
    rw [Int.natAbs_neg, Int.natAbs_natCast, zpow_neg, zpow_natCast]
    refine abs_sub_le_of_isNear ?_
    push_cast
    exact hinverse

/-! ### Units of the last digit -/

/-- **Integer powers** differ from the exact power by half a unit of their last digit, and what the
roundings between the steps add up to: for exponents below `10 ^ 7` that is together at most a unit
of the last digit of the exact power. -/
theorem power?_accurate (hx : x.toRat ≠ 0) (h : x.power? n = some v) :
    |v.toRat - x.toRat ^ n| ≤ lastPlace 32 v.toRat / 2 +
        (n.natAbs + 1) / (2 * 10 ^ 7) * lastPlace 32 (x.toRat ^ n) ∧
      (n.natAbs < 10 ^ 7 → |v.toRat - x.toRat ^ n| ≤ lastPlace 32 (x.toRat ^ n)) := by
  obtain ⟨t, hv, hnear⟩ := exists_power hx h
  have hexact : x.toRat ^ n ≠ 0 := zpow_ne_zero n hx
  -- the error in units of the last digit
  have hunits : |t - x.toRat ^ n| ≤
      (n.natAbs + 1) / (2 * 10 ^ 7) * lastPlace 32 (x.toRat ^ n) := by
    refine hnear.trans ?_
    calc (n.natAbs + 1) / (2 * 10 ^ 39) * |x.toRat ^ n|
        ≤ (n.natAbs + 1) / (2 * 10 ^ 39) * (10 ^ 32 * lastPlace 32 (x.toRat ^ n)) :=
          mul_le_mul_of_nonneg_left (abs_lt_lastPlace hexact).le (by positivity)
      _ = (n.natAbs + 1) / (2 * 10 ^ 7) * lastPlace 32 (x.toRat ^ n) := by ring
  rw [hv]
  refine ⟨?_, fun hfew => ?_⟩
  · have hround := abs_roundSignificant_sub_le_half 32 t
    have hplace : lastPlace 32 t ≤ lastPlace 32 (roundSignificant 32 t) :=
      lastPlace_le_lastPlace_roundSignificant (by norm_num) t
    calc |roundSignificant 32 t - x.toRat ^ n|
        ≤ |roundSignificant 32 t - t| + |t - x.toRat ^ n| := abs_sub_le _ _ _
      _ ≤ lastPlace 32 (roundSignificant 32 t) / 2 +
          (n.natAbs + 1) / (2 * 10 ^ 7) * lastPlace 32 (x.toRat ^ n) := by linarith
  · refine abs_roundSignificant_sub_le_lastPlace workingDigits_pos hexact (hunits.trans ?_)
    have hcount : ((n.natAbs : ℚ) + 1) / (2 * 10 ^ 7) ≤ 1 / 2 := by
      have : (n.natAbs : ℚ) + 1 ≤ 10 ^ 7 := by exact_mod_cast hfew
      rw [div_le_div_iff₀ (by norm_num) (by norm_num)]
      linarith
    calc (n.natAbs + 1) / (2 * 10 ^ 7) * lastPlace 32 (x.toRat ^ n)
        ≤ 1 / 2 * lastPlace 32 (x.toRat ^ n) :=
          mul_le_mul_of_nonneg_right hcount (lastPlace_pos 32 _).le
      _ = lastPlace 32 (x.toRat ^ n) / 2 := by ring

/-- The reciprocal of a power of three. -/
theorem power?_accurate_three :
    |(⟨41152263374485596707818930041152, 34⟩ : Decimal).toRat - (ofInt 3).toRat ^ (-5 : ℤ)| ≤
      lastPlace 32 ((ofInt 3).toRat ^ (-5 : ℤ)) :=
  (power?_accurate (by simp) (show (ofInt 3).power? (-5) = some _ by decide +kernel)).2 (by decide)

/-! ### Large exponents -/

/-- The square of `m / scale`, as a multiple of `1 / scale` that is rounded up. -/
def squareUp (scale m : ℕ) : ℕ := m * m / scale + 1

/-- Squaring again and again, rounded up, bounds powers whose exponent is a power of two. -/
lemma pow_le_squareUp {scale m : ℕ} {q : ℚ} (hscale : 0 < scale) (hq : 0 ≤ q) (h : q ≤ m / scale)
    (k : ℕ) : q ^ 2 ^ k ≤ ((squareUp scale)^[k] m : ℕ) / scale := by
  induction k generalizing q m with
  | zero => simpa using h
  | succ k ih =>
    rw [pow_succ', pow_mul, Function.iterate_succ_apply]
    refine ih (by positivity) ?_
    have hpos : (0 : ℚ) < scale := by exact_mod_cast hscale
    have hsquare : ((m * m : ℕ) : ℚ) / scale ≤ squareUp scale m := by
      rw [div_le_iff₀ hpos, squareUp]
      have hdivided := (Nat.lt_mul_div_succ (m * m) hscale).le
      rw [Nat.mul_comm scale] at hdivided
      exact_mod_cast hdivided
    calc q ^ 2 ≤ (m / scale) ^ 2 := pow_le_pow_left₀ hq h 2
      _ = ((m * m : ℕ) : ℚ) / scale / scale := by
        push_cast
        field_simp
      _ ≤ squareUp scale m / scale := by gcongr

/-- **Large exponents** add up roundings to more than a unit of the last digit: the power of
`1.00000001` with the exponent `2 ^ 30` is off by almost four. -/
theorem not_forall_power?_accurate :
    ¬ ∀ (x v : Decimal) (n : ℤ), x.toRat ≠ 0 → x.precision ≤ 32 → x.power? n = some v →
      |v.toRat - x.toRat ^ n| ≤ lastPlace 32 (x.toRat ^ n) := by
  intro h
  have hpower : (⟨100000001, 8⟩ : Decimal).power? (2 ^ 30 : ℕ) =
      some ⟨46047013507032561345655951556973, 27⟩ := by decide +kernel
  have hvalue : (⟨46047013507032561345655951556973, 27⟩ : Decimal).toRat =
      46047013507032561345655951556973 / 10 ^ 27 := by norm_num [toRat]
  have hbase : (⟨100000001, 8⟩ : Decimal).toRat =
      (100000001 * 10 ^ 52 : ℕ) / (10 ^ 60 : ℕ) := by norm_num [toRat]
  have hunit := h _ _ _ (by rw [hbase]; norm_num) (by decide) hpower
  rw [zpow_natCast] at hunit
  -- the exact power, from above
  have hupper : (⟨100000001, 8⟩ : Decimal).toRat ^ 2 ^ 30 ≤
      46047013507032561345655951556971 / 10 ^ 27 := by
    have hdigits : (squareUp (10 ^ 60))^[30] (100000001 * 10 ^ 52) ≤
        46047013507032561345655951556971 * 10 ^ 33 := by decide +kernel
    calc (⟨100000001, 8⟩ : Decimal).toRat ^ 2 ^ 30
        ≤ ((squareUp (10 ^ 60))^[30] (100000001 * 10 ^ 52) : ℕ) / (10 ^ 60 : ℕ) :=
          pow_le_squareUp (by positivity) (by rw [hbase]; positivity) hbase.le 30
      _ ≤ (46047013507032561345655951556971 * 10 ^ 33 : ℕ) / (10 ^ 60 : ℕ) := by gcongr
      _ = 46047013507032561345655951556971 / 10 ^ 27 := by norm_num
  obtain ⟨y, hy⟩ : ∃ y, (⟨100000001, 8⟩ : Decimal).toRat ^ 2 ^ 30 = y := ⟨_, rfl⟩
  rw [hy] at hunit hupper
  have hpos : 0 < y := hy ▸ pow_pos (by rw [hbase]; positivity) _
  -- a unit of its last digit
  have hplace : lastPlace 32 y ≤ 1 / 10 ^ 27 := by
    have hlog : Int.log 10 y < 5 := by
      refine (Int.lt_zpow_iff_log_lt (b := 10) (by norm_num) hpos).mp (hupper.trans_lt ?_)
      norm_num
    rw [lastPlace, abs_of_pos hpos, one_div, ← zpow_natCast, ← zpow_neg]
    exact zpow_le_zpow_right₀ (by norm_num) (by push_cast; omega)
  rw [hvalue] at hunit
  have := (abs_le.mp hunit).2
  norm_num at this hplace hupper
  linarith

end Decimal

end DecimalCalculator
