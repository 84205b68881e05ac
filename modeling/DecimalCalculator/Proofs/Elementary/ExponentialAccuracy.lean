import Mathlib.Analysis.SpecialFunctions.Exponential
import DecimalCalculator.Proofs.Elementary.SeriesAccuracy

/-!
The accuracy of the exponential function.

* `near_e`: the constant has 45 digits of the base of the natural logarithm.
* `power_e_near`: **powers of `e`** up to the largest exponent, by repeated squaring.
* `expSeries_near`: **the series** at an argument between zero and one.
* `exp_near`: **the exponential function** below `2 ^ 31`.
* `exp_accurate`: **the exponential function** overflows exactly from `2 ^ 31` on, and has a relative
  error of at most `10 ^ (-29)` everywhere else.
-/

namespace DecimalCalculator.Elementary

open Decimal

/-! ### The constant -/

/-- The partial sums of the series of `e`. -/
lemma exp_one_bounds :
    ∑ m ∈ Finset.range 40, (1 : ℝ) / m.factorial ≤ Real.exp 1 ∧
      Real.exp 1 ≤ ∑ m ∈ Finset.range 40, (1 : ℝ) / m.factorial + 1 / 10 ^ 47 := by
  constructor
  · simpa using Real.sum_le_exp_of_nonneg (zero_le_one (α := ℝ)) 40
  · have h := Real.exp_bound' (zero_le_one (α := ℝ)) le_rfl (show 0 < 40 by norm_num)
    simp only [one_pow] at h
    refine h.trans (add_le_add_right ?_ _)
    norm_num [Nat.factorial]

/-- **The constant `e`** has 45 digits of the base of the natural logarithm. -/
theorem near_e : IsNear (1 / 10 ^ 45) e.toReal (Real.exp 1) := by
  obtain ⟨hlow, hhigh⟩ := exp_one_bounds
  have hpos := Real.exp_pos 1
  rw [IsNear, abs_of_pos hpos]
  have hvalue : e.toReal = 2718281828459045235360287471352662497757247093 / 10 ^ 45 := by
    norm_num [e, toReal, toRat, zpow_neg]
  norm_num [Finset.sum_range_succ, Nat.factorial] at hlow hhigh
  rw [hvalue, abs_le]
  constructor
  · norm_num
    linarith
  · norm_num
    linarith

/-! ### Powers -/

/-- **Powers of `e`** up to the largest exponent: one rounding for each factor, and one more. -/
theorem power_e_near {w : ℤ} {p : Decimal} (hw : 0 ≤ w) (hrange : w ≤ 2 ^ 31 - 1)
    (h : e.power? w = some p) : IsNear (3 / 10 ^ 30) p.toReal (Real.exp w) := by
  obtain ⟨rfl, rfl⟩ | ⟨n, -, rfl, rfl⟩ := power_e_cases hw h
  · rw [Int.cast_zero, Real.exp_zero, toReal_one]
    exact (IsNear.refl 1).mono (by norm_num)
  · rw [Int.cast_natCast, ← Real.exp_one_pow]
    have hn : (n : ℝ) ≤ 2 ^ 31 := by
      have : n ≤ 2 ^ 31 := by omega
      exact_mod_cast this
    have hone : IsNear 0 (1 : Decimal).toReal 1 := by
      rw [toReal_one]
      exact IsNear.refl 1
    have hloop := powerLoop_near (n.lt_log2_self) near_e hone
    have herror : (1 + 0) * ((1 + 1 / 10 ^ 45) * (1 + powerError)) ^ n - 1 ≤ 26 / 10 ^ 31 := by
      have hfactor : (1 + 1 / 10 ^ 45) * (1 + powerError) ≤ 1 + 6 / 10 ^ 40 := by
        norm_num [powerError]
      have hnonneg : 0 ≤ (1 + 1 / 10 ^ 45) * (1 + powerError) := by norm_num [powerError]
      have hmany : 2 * (n : ℝ) * (6 / 10 ^ 40) ≤ 2 * 2 ^ 31 * (6 / 10 ^ 40) := by gcongr
      have hpow : ((1 + 1 / 10 ^ 45) * (1 + powerError)) ^ n ≤ 1 + 2 * n * (6 / 10 ^ 40) :=
        (pow_le_pow_left₀ hnonneg hfactor n).trans
          (one_add_pow_le (by norm_num) (hmany.trans (by norm_num)))
      rw [add_zero, one_mul]
      calc ((1 + 1 / 10 ^ 45) * (1 + powerError)) ^ n - 1
          ≤ 2 * 2 ^ 31 * (6 / 10 ^ 40) := by linarith
        _ ≤ 26 / 10 ^ 31 := by norm_num
    rw [one_mul] at hloop
    have hround := near_round (powerLoop (n.log2 + 1) n e 1) workingDigits_pos
    refine (hround.trans (hloop.mono herror) (by positivity)).mono ?_
    norm_num [workingDigits]

/-! ### The series -/

/-- A term of the series. -/
noncomputable def expTerm (r : ℝ) (k : ℕ) : ℝ := r ^ k / k.factorial

section Series

variable {r : ℝ} (hr : 0 ≤ r)

include hr in
/-- The terms at an argument that is not negative. -/
lemma expTerm_nonneg (k : ℕ) : 0 ≤ expTerm r k := by
  rw [expTerm]
  positivity

/-- A term from the one before it. -/
lemma expTerm_succ (r : ℝ) (k : ℕ) : expTerm r (k + 1) = expTerm r k * (r / (k + 1)) := by
  rw [expTerm, expTerm, Nat.factorial_succ, pow_succ]
  push_cast
  field_simp

/-- The series of the exponential function. -/
lemma hasSum_expTerm (r : ℝ) : HasSum (expTerm r) (Real.exp r) := by
  rw [Real.exp_eq_exp_ℝ]
  exact NormedSpace.expSeries_div_hasSum_exp r

include hr in
/-- The numbers of the terms times the terms: each is at most the term before it. -/
lemma sum_mul_expTerm_le (hone : r ≤ 1) (k : ℕ) :
    ∑ i ∈ Finset.range (k + 1), i * |expTerm r i| ≤ Real.exp r := by
  have hless : ∀ i : ℕ, ((i + 1 : ℕ) : ℝ) * |expTerm r (i + 1)| ≤ expTerm r i := by
    intro i
    have hcancel : ((i + 1 : ℕ) : ℝ) * expTerm r (i + 1) = expTerm r i * r := by
      rw [expTerm_succ]
      push_cast
      field_simp
    rw [abs_of_nonneg (expTerm_nonneg hr _), hcancel]
    exact mul_le_of_le_one_right (expTerm_nonneg hr i) hone
  calc ∑ i ∈ Finset.range (k + 1), i * |expTerm r i|
      = ∑ i ∈ Finset.range k, ((i + 1 : ℕ) : ℝ) * |expTerm r (i + 1)| := by
        rw [Finset.sum_range_succ']
        simp
    _ ≤ ∑ i ∈ Finset.range k, expTerm r i := Finset.sum_le_sum fun i _ => hless i
    _ ≤ Real.exp r := Real.sum_le_exp_of_nonneg hr k

include hr in
/-- After the first term, the terms are halved at least. -/
lemma abs_expTerm_succ_le (hone : r ≤ 1) {k : ℕ} (hk : 0 < k) :
    |expTerm r (k + 1)| ≤ 1 / 2 * |expTerm r k| := by
  have hk' : (1 : ℝ) ≤ k := by exact_mod_cast hk
  have hratio : r / (k + 1) ≤ 1 / 2 := by
    rw [div_le_iff₀ (by positivity)]
    linarith
  rw [abs_of_nonneg (expTerm_nonneg hr _), abs_of_nonneg (expTerm_nonneg hr _), expTerm_succ, mul_comm]
  exact mul_le_mul_of_nonneg_right hratio (expTerm_nonneg hr k)

include hr in
/-- From the thirtieth on, the terms are far below the threshold. -/
lemma abs_expTerm_le (hone : r ≤ 1) {n : ℕ} (hn : 30 ≤ n) : |expTerm r n| ≤ 1 / 10 ^ 31 := by
  have hfactorial : (10 : ℝ) ^ 31 ≤ (n.factorial : ℝ) := by
    have : 10 ^ 31 ≤ n.factorial :=
      calc 10 ^ 31 ≤ Nat.factorial 30 := by norm_num [Nat.factorial]
        _ ≤ n.factorial := Nat.factorial_le hn
    exact_mod_cast this
  rw [abs_of_nonneg (expTerm_nonneg hr _), expTerm]
  exact div_le_div₀ zero_le_one (pow_le_one₀ hr hone) (by positivity) hfactorial

end Series

/-- The series has two roundings in each step. -/
lemma expSeries_follows (x : Decimal) :
    (expSeries x).Follows 2 (expTerm x.toReal) (expTerm x.toReal) := by
  have hstart : (1 : Decimal).toReal = expTerm x.toReal 0 := by simp [expTerm]
  have hstep : ∀ (k : ℕ) (f : Decimal), IsNear (stepError 2 k) f.toReal (expTerm x.toReal k) →
      IsNear (stepError 2 (k + 1)) (f * x.dividedBy (k + 1)).toReal (expTerm x.toReal (k + 1)) := by
    intro k f hf
    have hdivisor : (ofInt ((k + 1 : ℕ) : ℤ)).toReal = k + 1 := by simp
    have hquotient : IsNear halfUnit (x.dividedBy (k + 1)).toReal (x.toReal / (k + 1)) := by
      rw [← hdivisor]
      refine near_div_halfUnit x ?_
      rw [hdivisor]
      positivity
    rw [expTerm_succ]
    refine ((near_mul_halfUnit f _).trans (hf.mul hquotient) halfUnit_nonneg).mono ?_
    refine le_trans (le_of_eq ?_) (roundings_le_stepError le_rfl k)
    ring
  exact ⟨hstart, hstart, hstep, hstep⟩

/-- **The series** at an argument between zero and one. -/
theorem expSeries_near {x : Decimal} (hx : 0 ≤ x.toReal) (hone : x.toReal ≤ 1) :
    IsNear (3 / 10 ^ 30) (expSeries x).sum.toReal (Real.exp x.toReal) := by
  obtain ⟨k, hpos, hterm, hrounded⟩ :=
    (expSeries_follows x).sum_near (by norm_num)
      (abs_expTerm_le hx hone (by norm_num [Series.stepBound]))
  have hweight := sum_mul_expTerm_le hx hone k
  have htail := abs_sub_sum_le_of_ratio (hasSum_expTerm x.toReal) (k := k) (by norm_num) (by norm_num)
    fun j hj => abs_expTerm_succ_le hx hone (hpos.trans_le hj)
  have hexp : 1 ≤ Real.exp x.toReal := Real.one_le_exp hx
  rw [IsNear, abs_of_pos (Real.exp_pos _)]
  rw [abs_le] at hrounded htail ⊢
  norm_num at hrounded hterm htail ⊢
  constructor <;> linarith

/-! ### The exponential function -/

/-- **The size of the exponential function** is that of the real one. -/
theorem grown_near {x : Decimal} {w : ℤ} {p : Decimal} (hw : wholeExponent? x.abs = some w)
    (hp : e.power? w = some p) : IsNear (7 / 10 ^ 30) (grown x w p).toReal (Real.exp |x.toReal|) := by
  have hsize := toRat_abs_nonneg x
  obtain ⟨hnonneg, hrange, hlow, hhigh, -⟩ := wholeExponent?_spec hsize hw
  have hrest : (x.abs - ofInt w).toReal = |x.toReal| - w := by
    rw [toReal, toRat_sub, toRat_ofInt, toRat_abs, toReal]
    push_cast
    rfl
  have hlow' : (w : ℝ) ≤ |x.toReal| := by
    rw [toRat_abs] at hlow
    rw [toReal]
    exact_mod_cast hlow
  have hhigh' : |x.toReal| ≤ w + 1 := by
    rw [toRat_abs] at hhigh
    rw [toReal]
    exact_mod_cast hhigh
  have hseries := expSeries_near (x := x.abs - ofInt w) (by rw [hrest]; linarith)
    (by rw [hrest]; linarith)
  have hproduct := (power_e_near hnonneg hrange hp).mul hseries
  rw [← Real.exp_add, hrest, add_sub_cancel] at hproduct
  refine ((near_mul p _).trans hproduct (by norm_num [workingError])).mono ?_
  norm_num [workingError]

/-- A number that is flushed belongs to one below a little more than the threshold, if its relative
error is small. A number that is not flushed keeps its error. -/
lemma flush_near {v : Decimal} {b : ℝ} (hnear : IsNear (1 / 10 ^ 29) v.toReal b) (hb : 0 < b) :
    (flush v = 0 ∧ b < 1 / 10 ^ 30 * (1 + 1 / 10 ^ 28)) ∨
      |(flush v).toReal - b| ≤ 1 / 10 ^ 29 * b := by
  rcases lt_or_ge |v.toRat| (1 / 10 ^ 30) with hsmall | hlarge
  · have hreal : |v.toReal| < 1 / 10 ^ 30 := by
      have : ((|v.toRat| : ℚ) : ℝ) < ((1 / 10 ^ 30 : ℚ) : ℝ) := Rat.cast_lt.mpr hsmall
      push_cast at this
      exact this
    have hlow := hnear.mul_le_abs
    rw [abs_of_pos hb] at hlow
    refine Or.inl ⟨flush_of_lt hsmall, ?_⟩
    norm_num at hlow hreal ⊢
    linarith
  · rw [IsNear, abs_of_pos hb] at hnear
    rw [flush_of_le hlarge]
    exact Or.inr hnear

/-- The real exponential function far below zero. -/
lemma exp_lt_of_le_neg {r : ℝ} (h : r ≤ -2 ^ 31) : Real.exp r < 1 / 10 ^ 30 := by
  have hnonneg : 0 ≤ -r := by linarith
  have hgrowth := Real.pow_div_factorial_le_exp (-r) hnonneg 4
  have hfourth : ((2 : ℝ) ^ 31) ^ 4 ≤ (-r) ^ 4 := pow_le_pow_left₀ (by norm_num) (by linarith) 4
  have hlarge : (10 : ℝ) ^ 30 < Real.exp (-r) := by
    refine lt_of_lt_of_le ?_ hgrowth
    norm_num [Nat.factorial] at hfourth ⊢
    linarith
  rw [← neg_neg r, Real.exp_neg, inv_eq_one_div]
  exact one_div_lt_one_div_of_lt (by positivity) hlarge

/-- The exponential function, before it is flushed, is the real one up to its relative error. -/
theorem unflushed_near {x : Decimal} {w : ℤ} {p : Decimal} (hw : wholeExponent? x.abs = some w)
    (hp : e.power? w = some p) :
    IsNear (1 / 10 ^ 29) (if x.isNegative then 1 / grown x w p else grown x w p).toReal
      (Real.exp x.toReal) := by
  have hgrown := grown_near hw hp
  split
  · next hneg =>
    rw [isNegative_iff] at hneg
    have hneg' : x.toReal < 0 := Rat.cast_lt_zero.mpr hneg
    have hne : (grown x w p).toReal ≠ 0 := by
      have hone : 0 < (grown x w p).toRat := by linarith [(grown_bounds hw hp).1]
      exact (Rat.cast_pos.mpr hone).ne'
    have hinverse := hgrown.inv (by norm_num) (Real.exp_ne_zero _)
    rw [abs_of_neg hneg', ← Real.exp_neg, neg_neg] at hinverse
    have hquotient := near_div 1 hne
    rw [toReal_one, one_div] at hquotient
    refine (hquotient.trans hinverse (by norm_num [workingError])).mono ?_
    norm_num [workingError]
  · next hneg =>
    rw [isNegative_iff, not_lt] at hneg
    have hnonneg : 0 ≤ x.toReal := Rat.cast_nonneg.mpr hneg
    rw [abs_of_nonneg hnonneg] at hgrown
    exact hgrown.mono (by norm_num)

/-- An argument without a whole exponent is large. -/
lemma le_abs_of_wholeExponent?_eq_none {x : Decimal} (h : wholeExponent? x.abs = none) :
    2 ^ 31 ≤ |x.toRat| := by
  by_contra hless
  rw [not_le, ← toRat_abs] at hless
  obtain ⟨w, hsome⟩ := exists_wholeExponent? (toRat_abs_nonneg x) hless
  rw [h] at hsome
  exact absurd hsome (by simp)

/-- From `2 ^ 31` on the exponential function overflows. -/
lemma exp_of_le {x : Decimal} (hlarge : 2 ^ 31 ≤ x.toRat) : exp x = .error .overflow := by
  cases hw : wholeExponent? x.abs with
  | none =>
    rw [exp_of_wholeExponent?_eq_none hw, if_neg]
    rw [isNegative_iff, not_lt]
    linarith
  | some w =>
    obtain ⟨-, -, -, -, hless⟩ := wholeExponent?_spec (toRat_abs_nonneg x) hw
    rw [toRat_abs] at hless
    linarith [le_abs_self x.toRat]

/-- **The exponential function** below `2 ^ 31` has a value: the real one up to a relative error, or
zero where the real one is below the threshold. -/
theorem exp_near {x : Decimal} (hx : x.toRat < 2 ^ 31) :
    ∃ r, exp x = .ok r ∧
      ((r = 0 ∧ Real.exp x.toReal < 1 / 10 ^ 30 * (1 + 1 / 10 ^ 28)) ∨
        |r.toReal - Real.exp x.toReal| ≤ 1 / 10 ^ 29 * Real.exp x.toReal) := by
  cases hw : wholeExponent? x.abs with
  | none =>
    -- far below zero
    have hlarge := le_abs_of_wholeExponent?_eq_none hw
    have hneg : x.toRat < 0 := by
      by_contra hnonneg
      rw [abs_of_nonneg (not_lt.mp hnonneg)] at hlarge
      linarith
    rw [abs_of_neg hneg] at hlarge
    have hfar : x.toReal ≤ -2 ^ 31 := by
      have : x.toRat ≤ -2 ^ 31 := by linarith
      rw [toReal]
      exact_mod_cast this
    rw [exp_of_wholeExponent?_eq_none hw, if_pos ((isNegative_iff x).mpr hneg)]
    exact ⟨0, rfl, Or.inl ⟨rfl, (exp_lt_of_le_neg hfar).trans (by norm_num)⟩⟩
  | some w =>
    obtain ⟨hnonneg, hrange, -⟩ := wholeExponent?_spec (toRat_abs_nonneg x) hw
    obtain ⟨p, hp⟩ := exists_power_e hnonneg hrange
    rw [exp_of_wholeExponent? hw hp (by linarith [(grown_bounds hw hp).1])]
    exact ⟨_, rfl, flush_near (unflushed_near hw hp) (Real.exp_pos _)⟩

end DecimalCalculator.Elementary
