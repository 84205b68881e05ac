import DecimalCalculator.Elementary.Exponential
import DecimalCalculator.Proofs.Decimal.Integral
import DecimalCalculator.Proofs.Decimal.Rounding

/-!
What the exponential function divides by.

* `Series.exists_sum`: what every step of a series keeps holds of its sum.
* `powerLoop_bounds`, `power_e_bounds`: powers of `e` by repeated squaring.
* `wholeExponent?_spec`: what is taken out of an argument leaves between zero and one.
* `exp_of_wholeExponent?`: **the exponential function** comes to the number `grown`, or to its
  reciprocal, where values below the threshold are zero.
* `grown_bounds`: that number is at least one, and grows by a factor of less than three.
-/

namespace DecimalCalculator.Elementary

open Decimal

/-! ### Series -/

namespace Series

variable {s : Series} {P : ℕ → State → Prop}

/-- What every step keeps is kept by a run, which ends after a small term or with the last step. -/
lemma run_induction (hstep : ∀ k state, P k state → P (k + 1) (s.step k state)) (bound k : ℕ)
    (state : State) (h : P k state) :
    ∃ j ≤ k + bound, P j (s.run bound k state) ∧
      ((s.run bound k state).done = true ∨ j = k + bound) := by
  induction bound generalizing k state with
  | zero => exact ⟨k, le_rfl, h, Or.inr rfl⟩
  | succ bound ih =>
    rw [run]
    split
    · next hdone => exact ⟨k, by omega, h, Or.inl hdone⟩
    · obtain ⟨j, hj, hP, hend⟩ := ih (k + 1) _ (hstep k state h)
      exact ⟨j, by omega, hP, hend.imp_right fun hlast => by omega⟩

/-- **Sums of series**: what holds at the start and is kept by every step holds at the end. -/
theorem exists_sum (hstart : P 0 s.start)
    (hstep : ∀ k state, P k state → P (k + 1) (s.step k state)) :
    ∃ k ≤ stepBound, ∃ state, P k state ∧ s.sum = state.sum := by
  obtain ⟨k, hk, hP, -⟩ := run_induction hstep stepBound 0 s.start hstart
  exact ⟨k, by omega, _, hP, rfl⟩

/-- The first step of a series is always taken. -/
lemma sum_eq_run (s : Series) : s.sum = (s.run 999 1 (s.step 0 s.start)).sum := by
  rw [sum, stepBound, run, if_neg (by simp [start])]

/-- A series whose second term is below the threshold ends with it. -/
lemma sum_eq_of_lt (h : (s.term 0 (s.advance 0 s.first)).abs < threshold) :
    s.sum = s.first + s.term 0 (s.advance 0 s.first) := by
  have hdone : (s.step 0 s.start).done = true := decide_eq_true h
  rw [sum_eq_run, run, if_pos hdone]
  rfl

end Series

/-- Between two steps of the exponential series at an argument between zero and one: the factor is
such a number too, and the sum is at least one and has grown by at most one in each step. -/
structure IsExpState (k : ℕ) (state : Series.State) : Prop where
  nonneg : 0 ≤ state.factor.toRat
  le_one : state.factor.toRat ≤ 1
  one_le_sum : 1 ≤ state.sum.toRat
  sum_le : state.sum.toRat ≤ 1 + k

/-- A step of the exponential series keeps the terms between zero and one. -/
lemma IsExpState.step {x : Decimal} (hx : 0 ≤ x.toRat) (hone : x.toRat ≤ 1) {k : ℕ}
    {state : Series.State} (h : IsExpState k state) :
    IsExpState (k + 1) ((expSeries x).step k state) := by
  set ratio := x.dividedBy (k + 1) with hratio
  have hdivisor : (ofInt ((k + 1 : ℕ) : ℤ)).toRat = k + 1 := by simp
  have hpos : (0 : ℚ) < (ofInt ((k + 1 : ℕ) : ℤ)).toRat := by
    rw [hdivisor]
    positivity
  -- the ratio of two terms
  have hratio_nonneg : 0 ≤ ratio.toRat :=
    nonneg_of_abs_sub_le (div_nonneg hx hpos.le) (abs_div_sub_le x hpos.ne')
  have hratio_le : ratio.toRat ≤ 1 := by
    refine div_le (k := 0) hx hpos ?_
    rw [zpow_zero, div_le_one hpos, hdivisor]
    have : (0 : ℚ) ≤ k := by positivity
    linarith
  have hproduct : 0 ≤ state.factor.toRat * ratio.toRat := mul_nonneg h.nonneg hratio_nonneg
  have hnonneg : 0 ≤ (state.factor * ratio).toRat :=
    nonneg_of_abs_sub_le hproduct (abs_mul_sub_le state.factor ratio)
  have hle : (state.factor * ratio).toRat ≤ 1 := by
    refine timesRounded_le (k := 0) workingDigits_pos hproduct ?_
    rw [zpow_zero]
    exact mul_le_one₀ h.le_one hratio_nonneg hratio_le
  have hsum : ((expSeries x).step k state).sum.toRat =
      state.sum.toRat + (state.factor * ratio).toRat := toRat_add _ _
  have hlow := h.one_le_sum
  have hhigh := h.sum_le
  refine ⟨hnonneg, hle, by linarith, ?_⟩
  push_cast
  linarith

/-- **The exponential series** at an argument between zero and one. -/
theorem expSeries_sum_bounds {x : Decimal} (hx : 0 ≤ x.toRat) (hone : x.toRat ≤ 1) :
    1 ≤ (expSeries x).sum.toRat ∧ (expSeries x).sum.toRat ≤ 1001 := by
  have hstart : IsExpState 0 (expSeries x).start := by
    constructor <;> simp [Series.start, expSeries]
  obtain ⟨k, hk, state, hstate, hsum⟩ :=
    Series.exists_sum hstart fun k state h => IsExpState.step hx hone h
  have : (k : ℚ) ≤ 1000 := by exact_mod_cast hk
  have hhigh := hstate.sum_le
  rw [hsum]
  exact ⟨hstate.one_le_sum, by linarith⟩

/-! ### Powers -/

/-- The product of two numbers of at least one, rounded to no fewer digits than are worked with. -/
lemma timesRounded_bounds {digits : ℕ} (hdigits : workingDigits ≤ digits) {x y : Decimal}
    (hx : 1 ≤ x.toRat) (hy : 1 ≤ y.toRat) :
    1 ≤ (x.timesRounded y digits).toRat ∧
      (x.timesRounded y digits).toRat ≤ x.toRat * y.toRat * (1 + relativeError) := by
  have hone : 1 ≤ x.toRat * y.toRat := one_le_mul_of_one_le_of_one_le hx hy
  have hpos : 0 < digits := workingDigits_pos.trans_le hdigits
  constructor
  · have := le_timesRounded (k := 0) hpos (by simpa using hone : _ ≤ x.toRat * y.toRat)
    simpa using this
  · exact (bounds_of_abs_sub_le (by linarith) (abs_timesRounded_sub_le hdigits x y)).2

/-- Repeated squaring stays above one, and its error grows as if the base were a little larger. -/
lemma powerLoop_bounds {bound n : ℕ} (hbound : n < 2 ^ bound) {base product : Decimal}
    (hbase : 1 ≤ base.toRat) (hproduct : 1 ≤ product.toRat) :
    1 ≤ (powerLoop bound n base product).toRat ∧
      (powerLoop bound n base product).toRat ≤
        product.toRat * (base.toRat * (1 + relativeError)) ^ n := by
  have hgrowth : 0 < 1 + relativeError := by norm_num [relativeError]
  have hdigits : workingDigits ≤ powerDigits := Nat.le_add_right _ _
  set grown := base.toRat * (1 + relativeError)
  -- a power of the base leaves room for the error of the next product
  refine powerLoop_induction
    (B := fun k y => 1 ≤ y.toRat ∧ y.toRat * (1 + relativeError) ≤ grown ^ k)
    (Q := fun k y => 1 ≤ y.toRat ∧ y.toRat ≤ product.toRat * grown ^ k)
    hbound ?_ ?_ ⟨hbase, by rw [pow_one]⟩ ⟨hproduct, by rw [pow_zero, mul_one]⟩
  · rintro k y - ⟨hy, hpower⟩
    obtain ⟨hlow, hhigh⟩ := timesRounded_bounds hdigits hy hy
    have hnonneg : 0 ≤ y.toRat * (1 + relativeError) := mul_nonneg (by linarith) hgrowth.le
    refine ⟨hlow, ?_⟩
    calc (y.timesRounded y powerDigits).toRat * (1 + relativeError)
        ≤ y.toRat * y.toRat * (1 + relativeError) * (1 + relativeError) :=
          mul_le_mul_of_nonneg_right hhigh hgrowth.le
      _ = y.toRat * (1 + relativeError) * (y.toRat * (1 + relativeError)) := by ring
      _ ≤ grown ^ k * grown ^ k := mul_le_mul hpower hpower hnonneg (hnonneg.trans hpower)
      _ = grown ^ (k + k) := (pow_add _ _ _).symm
  · rintro k l y z - ⟨hy, hreached⟩ ⟨hz, hpower⟩
    obtain ⟨hlow, hhigh⟩ := timesRounded_bounds hdigits hy hz
    have hnonneg : 0 ≤ z.toRat * (1 + relativeError) := mul_nonneg (by linarith) hgrowth.le
    refine ⟨hlow, ?_⟩
    calc (y.timesRounded z powerDigits).toRat ≤ y.toRat * z.toRat * (1 + relativeError) := hhigh
      _ = y.toRat * (z.toRat * (1 + relativeError)) := mul_assoc _ _ _
      _ ≤ product.toRat * grown ^ k * grown ^ l :=
          mul_le_mul hreached hpower hnonneg ((by linarith : (0 : ℚ) ≤ y.toRat).trans hreached)
      _ = product.toRat * grown ^ (k + l) := by rw [pow_add, mul_assoc]

/-- The base of the logarithm is between two and a half and three. -/
lemma e_bounds : 5 / 2 ≤ e.toRat ∧ e.toRat ≤ 272 / 100 := by
  norm_num [e, toRat]

/-- A power of `e` within the range of exponents. -/
lemma exists_power_e {w : ℤ} (hw : 0 ≤ w) (hrange : w ≤ 2 ^ 31 - 1) : ∃ p, e.power? w = some p := by
  have hmagnitude : e.magnitude = 0 := by decide
  rw [power?]
  split
  · exact ⟨1, rfl⟩
  · have hscale : ¬ scaleLimit < ((e.magnitude.natAbs : ℤ) + 1) * w.natAbs := by
      rw [hmagnitude, Int.natAbs_zero, Nat.cast_zero, zero_add, one_mul, scaleLimit]
      omega
    rw [if_neg (by decide), if_neg hscale]
    exact ⟨_, rfl⟩

/-- A power of `e` with an exponent that is not negative is the first one, or repeated squaring
finds it. -/
lemma power_e_cases {w : ℤ} {p : Decimal} (hw : 0 ≤ w) (h : e.power? w = some p) :
    w = 0 ∧ p = 1 ∨
      ∃ m : ℕ, 0 < m ∧ w = m ∧ p = (powerLoop (m.log2 + 1) m e 1).round workingDigits := by
  cases power?_cases h with
  | one => exact Or.inl ⟨rfl, rfl⟩
  | zero hzero => exact absurd hzero (by linarith [e_bounds.1] : e.toRat ≠ 0)
  | rounded m _ hm => exact Or.inr ⟨m, hm, rfl, rfl⟩
  | inverted m _ hm => omega

/-- **Powers of `e`** are at least one, and grow by a factor of less than three. -/
lemma power_e_bounds {w : ℤ} {p : Decimal} (hw : 0 ≤ w) (h : e.power? w = some p) :
    1 ≤ p.toRat ∧ p.toRat ≤ 3 ^ w.toNat := by
  obtain ⟨helow, hehigh⟩ := e_bounds
  obtain ⟨rfl, rfl⟩ | ⟨n, hn, rfl, rfl⟩ := power_e_cases hw h
  · norm_num
  · rw [Int.toNat_natCast]
    obtain ⟨hlow, hhigh⟩ := powerLoop_bounds n.lt_log2_self (show 1 ≤ e.toRat by linarith)
      (show 1 ≤ (1 : Decimal).toRat by simp)
    set power := powerLoop (n.log2 + 1) n e 1 with hpower
    have hnonneg : 0 ≤ power.toRat := by linarith
    rw [toRat_one, one_mul] at hhigh
    constructor
    · have := le_round (k := 0) workingDigits_pos hnonneg (by simpa using hlow)
      simpa using this
    · have hround := abs_round_sub_le workingDigits_pos power
      rw [abs_le, abs_of_nonneg hnonneg] at hround
      have hsmall : power.toRat / (2 * 10 ^ (workingDigits - 1)) ≤ power.toRat * (1 / 100) := by
        rw [div_eq_mul_one_div]
        refine mul_le_mul_of_nonneg_left ?_ (by linarith)
        norm_num [workingDigits]
      have hbase : e.toRat * (1 + relativeError) * (101 / 100) ≤ 3 := by
        have : e.toRat * (1 + relativeError) ≤ 272 / 100 * (1 + relativeError) :=
          mul_le_mul_of_nonneg_right hehigh (by norm_num [relativeError])
        norm_num [relativeError] at this ⊢
        linarith
      have hgrown : 0 ≤ e.toRat * (1 + relativeError) :=
        mul_nonneg (by linarith) (by norm_num [relativeError])
      calc (power.round workingDigits).toRat ≤ power.toRat * (101 / 100) := by linarith
        _ ≤ (e.toRat * (1 + relativeError)) ^ n * (101 / 100) :=
          mul_le_mul_of_nonneg_right hhigh (by norm_num)
        _ ≤ (e.toRat * (1 + relativeError)) ^ n * (101 / 100) ^ n := by
          refine mul_le_mul_of_nonneg_left ?_ (pow_nonneg hgrown n)
          exact le_self_pow₀ (by norm_num) hn.ne'
        _ = (e.toRat * (1 + relativeError) * (101 / 100)) ^ n := by rw [← mul_pow]
        _ ≤ 3 ^ n := pow_le_pow_left₀ (mul_nonneg hgrown (by norm_num)) hbase n

/-! ### The exponential function -/

variable {x : Decimal}

/-- **The whole exponent** leaves between zero and one of an argument below `2 ^ 31`. -/
theorem wholeExponent?_spec {w : ℤ} (hx : 0 ≤ x.toRat) (h : wholeExponent? x = some w) :
    0 ≤ w ∧ w ≤ 2 ^ 31 - 1 ∧ (w : ℚ) ≤ x.toRat ∧ x.toRat ≤ w + 1 ∧ x.toRat < 2 ^ 31 := by
  rw [wholeExponent?] at h
  obtain ⟨n, hn, h⟩ := Option.bind_eq_some_iff.mp h
  obtain ⟨hle, hlt, hinteger⟩ := toInt64?_spec hx hn
  have hnonneg : 0 ≤ n := by
    have : (-1 : ℚ) < n := by linarith
    have : -1 < n := by exact_mod_cast this
    omega
  split at h
  · exact absurd h (by simp)
  · next hrange =>
    have hsmall : x.toRat < 2 ^ 31 := by
      have : n + 1 ≤ 2 ^ 31 := by omega
      have : (n : ℚ) + 1 ≤ 2 ^ 31 := by exact_mod_cast this
      linarith
    split at h
    · next hwhole =>
      -- a positive integer leaves one
      obtain rfl := Option.some.inj h
      refine ⟨by omega, by omega, ?_, ?_, hsmall⟩
      · rw [hinteger hwhole.2]
        push_cast
        linarith
      · rw [hinteger hwhole.2]
        push_cast
        linarith
    · obtain rfl := Option.some.inj h
      exact ⟨hnonneg, by omega, hle, hlt.le, hsmall⟩

/-- An argument below `2 ^ 31` has a whole exponent. -/
lemma exists_wholeExponent? (hx : 0 ≤ x.toRat) (hlt : x.toRat < 2 ^ 31) :
    ∃ w, wholeExponent? x = some w := by
  obtain ⟨n, hn⟩ := exists_toInt64? hx (hlt.trans (by norm_num))
  have hle := (toInt64?_spec hx hn).1
  have hrange : ¬ 0x7fffffff < n := by
    have : (n : ℚ) < 2 ^ 31 := by linarith
    have : n < 2 ^ 31 := by exact_mod_cast this
    omega
  rw [wholeExponent?, hn, Option.bind_eq_bind, Option.bind_some, if_neg hrange]
  split
  · exact ⟨_, rfl⟩
  · exact ⟨_, rfl⟩

/-- Without a whole exponent the exponential function is zero or overflows. -/
lemma exp_of_wholeExponent?_eq_none (h : wholeExponent? x.abs = none) :
    exp x = if x.isNegative then .ok 0 else .error .overflow := by
  rw [exp, h]
  rfl

/-- The size of the exponential function, before an argument below zero inverts it. -/
def grown (x : Decimal) (w : ℤ) (p : Decimal) : Decimal :=
  p * (expSeries (x.abs - ofInt w)).sum

/-- **The exponential function** at an argument with a whole exponent. -/
lemma exp_of_wholeExponent? {w : ℤ} {p : Decimal} (hw : wholeExponent? x.abs = some w)
    (hp : e.power? w = some p) (hne : (grown x w p).toRat ≠ 0) :
    exp x = .ok (flush (if x.isNegative then 1 / grown x w p else grown x w p)) := by
  have hdivisor : (p * (expSeries (x.abs - ofInt w)).sum).isZero = false :=
    (isZero_eq_false_iff _).mpr hne
  rw [exp, hw, Option.bind_eq_bind, Option.bind_some, hp, Option.bind_eq_bind, Option.bind_some]
  simp only
  split
  · rw [quotientOrAbort, quotientOr, quotient?, hdivisor]
    rfl
  · rfl

/-- The size of the exponential function is at least one, and is at most a power of three times the
largest sum of the series. -/
lemma grown_bounds {w : ℤ} {p : Decimal} (hw : wholeExponent? x.abs = some w)
    (hp : e.power? w = some p) :
    1 ≤ (grown x w p).toRat ∧
      (grown x w p).toRat ≤ 3 ^ w.toNat * 1001 * (1 + relativeError) := by
  have hsize := toRat_abs_nonneg x
  obtain ⟨hnonneg, -, hlow, hhigh, -⟩ := wholeExponent?_spec hsize hw
  obtain ⟨hpower, hpower_le⟩ := power_e_bounds hnonneg hp
  have hrest : (x.abs - ofInt w).toRat = x.abs.toRat - w := by rw [toRat_sub, toRat_ofInt]
  obtain ⟨hsum, hsum_le⟩ := expSeries_sum_bounds (x := x.abs - ofInt w)
    (by rw [hrest]; linarith) (by rw [hrest]; linarith)
  obtain ⟨hgrown, hgrown_le⟩ := timesRounded_bounds (le_refl workingDigits) hpower hsum
  refine ⟨hgrown, hgrown_le.trans ?_⟩
  refine mul_le_mul_of_nonneg_right ?_ (by norm_num [relativeError])
  exact mul_le_mul hpower_le hsum_le (by linarith) (by positivity)

end DecimalCalculator.Elementary
