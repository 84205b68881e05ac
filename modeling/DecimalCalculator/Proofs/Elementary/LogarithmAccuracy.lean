import Mathlib.Analysis.SpecialFunctions.Log.Deriv
import DecimalCalculator.Proofs.Elementary.ExponentialAccuracy

/-!
The accuracy of the natural logarithm.

* `Reduction.total`: the logarithm that a reduction stands for, which each step of it keeps up to one
  rounding (`Reduction.total_divide`, `Reduction.total_multiply`).
* `Reduction.divide_spec`: **dividing** ends below the upper end of the interval, and not below its
  lower end by more than a rounding.
* `Reduction.of_bounds`: **the reduction** of any positive number ends in the interval.
* `Reduction.steps_le`: it takes hardly more steps than the logarithm counts, so that the errors of all
  of them together are small beside the logarithm (`Reduction.of_near`).
* `lnSeries_near`: **the series** in the interval.
* `ln_near`: **the logarithm** of every positive number.
* `ln_accurate`: **the logarithm** is undefined exactly for all other numbers.
-/

namespace DecimalCalculator

/-- The logarithms of numbers near each other. -/
theorem IsNear.abs_log_sub_le {ε a b : ℝ} (h : IsNear ε a b) (hε : ε < 1) (hb : 0 < b)
    (ha : 0 < a) : |Real.log a - Real.log b| ≤ ε / (1 - ε) := by
  have hrest : 0 < 1 - ε := by linarith
  rw [IsNear, abs_of_pos hb, abs_le] at h
  have hnonneg : 0 ≤ ε := by nlinarith
  rw [← Real.log_div ha.ne' hb.ne', abs_le]
  constructor
  · have hlow := Real.one_sub_inv_le_log_of_pos (div_pos ha hb)
    have hinverse : (a / b)⁻¹ ≤ 1 / (1 - ε) := by
      rw [inv_div, div_le_div_iff₀ ha hrest]
      linarith
    have hsplit : 1 - 1 / (1 - ε) = -(ε / (1 - ε)) := by
      field_simp
      ring
    linarith
  · have hhigh := Real.log_le_sub_one_of_pos (div_pos ha hb)
    have hquotient : a / b ≤ 1 + ε := by
      rw [div_le_iff₀ hb]
      linarith
    have hgrown : ε ≤ ε / (1 - ε) := le_div_self hnonneg hrest (by linarith)
    linarith

namespace Elementary

open Decimal

/-! ### The reduction -/

/-- The constant `e` is positive. -/
lemma toReal_e_pos : 0 < e.toReal := by
  norm_num [e, toReal, toRat]

/-- The logarithm of the constant `e`. -/
lemma abs_log_e_sub_one_le : |Real.log e.toReal - 1| ≤ 1 / 10 ^ 44 := by
  have h := near_e.abs_log_sub_le (by norm_num) (Real.exp_pos 1) toReal_e_pos
  rw [Real.log_exp] at h
  exact h.trans (by norm_num)

namespace Reduction

/-- The logarithm that a reduction stands for. -/
noncomputable def total (r : Reduction) : ℝ := Real.log r.reduced.toReal + r.count

/-- A step of a reduction rounds once, and the constant is rounded too. -/
noncomputable def stepShift : ℝ := 51 / 50 * halfUnit

/-- What is near a positive number by half a unit is positive, and its logarithm is near too. -/
lemma log_of_near {a b : ℝ} (h : IsNear halfUnit a b) (hb : 0 < b) :
    0 < a ∧ |Real.log a - Real.log b| ≤ 505 / 10 ^ 34 := by
  have ha : 0 < a := by
    have hnear := h
    rw [IsNear, abs_of_pos hb, abs_le] at hnear
    have : halfUnit * b ≤ 1 / 2 * b := mul_le_mul_of_nonneg_right (by norm_num [halfUnit]) hb.le
    linarith
  refine ⟨ha, (h.abs_log_sub_le (by norm_num [halfUnit]) hb ha).trans ?_⟩
  norm_num [halfUnit]

/-- A division by `e` keeps the logarithm. -/
lemma total_divide_step {r : Reduction} (hpos : 0 < r.reduced.toReal) :
    0 < (r.reduced / e).toReal ∧
      |total ⟨r.reduced / e, r.count + 1⟩ - r.total| ≤ stepShift := by
  obtain ⟨hdivided, hlog⟩ := log_of_near (near_div_halfUnit r.reduced toReal_e_pos.ne')
    (div_pos hpos toReal_e_pos)
  refine ⟨hdivided, ?_⟩
  rw [Real.log_div hpos.ne' toReal_e_pos.ne'] at hlog
  have hbase := abs_log_e_sub_one_le
  rw [total, total, stepShift, halfUnit, Int.cast_add, Int.cast_one]
  rw [abs_le] at hlog hbase ⊢
  norm_num at hlog hbase ⊢
  constructor <;> linarith

/-- A multiplication by `e` keeps the logarithm. -/
lemma total_multiply_step {r : Reduction} (hpos : 0 < r.reduced.toReal) :
    0 < (r.reduced * e).toReal ∧
      |total ⟨r.reduced * e, r.count - 1⟩ - r.total| ≤ stepShift := by
  obtain ⟨hmultiplied, hlog⟩ := log_of_near (near_mul_halfUnit r.reduced e)
    (mul_pos hpos toReal_e_pos)
  refine ⟨hmultiplied, ?_⟩
  rw [Real.log_mul hpos.ne' toReal_e_pos.ne'] at hlog
  have hbase := abs_log_e_sub_one_le
  rw [total, total, stepShift, halfUnit, Int.cast_sub, Int.cast_one]
  rw [abs_le] at hlog hbase ⊢
  norm_num at hlog hbase ⊢
  constructor <;> linarith

/-- **Dividing** keeps the logarithm up to a rounding for each step. -/
theorem total_divide (n : ℕ) {r : Reduction} (hpos : 0 < r.reduced.toReal) :
    0 < (divide n r).reduced.toReal ∧ r.count ≤ (divide n r).count ∧
      |(divide n r).total - r.total| ≤ stepShift * ((divide n r).count - r.count) := by
  induction n generalizing r with
  | zero => simpa [divide] using hpos
  | succ n ih =>
    rw [divide]
    split
    · obtain ⟨hdivided, hstep⟩ := total_divide_step hpos
      set next : Reduction := ⟨r.reduced / e, r.count + 1⟩ with hnext
      obtain ⟨hrest, hcount, htotal⟩ := @ih next hdivided
      have hone : next.count = r.count + 1 := rfl
      have htriangle := abs_sub_le (divide n next).total next.total r.total
      rw [hone] at hcount htotal
      push_cast at htotal
      exact ⟨hrest, by omega, by linarith⟩
    · simpa using hpos

/-- **Multiplying** keeps the logarithm up to a rounding for each step. -/
theorem total_multiply (n : ℕ) {r : Reduction} (hpos : 0 < r.reduced.toReal) :
    0 < (multiply n r).reduced.toReal ∧ (multiply n r).count ≤ r.count ∧
      |(multiply n r).total - r.total| ≤ stepShift * (r.count - (multiply n r).count) := by
  induction n generalizing r with
  | zero => simpa [multiply] using hpos
  | succ n ih =>
    rw [multiply]
    split
    · obtain ⟨hmultiplied, hstep⟩ := total_multiply_step hpos
      set next : Reduction := ⟨r.reduced * e, r.count - 1⟩ with hnext
      obtain ⟨hrest, hcount, htotal⟩ := @ih next hmultiplied
      have hone : next.count = r.count - 1 := rfl
      have htriangle := abs_sub_le (multiply n next).total next.total r.total
      rw [hone] at hcount htotal
      push_cast at htotal
      exact ⟨hrest, by omega, by linarith⟩
    · simpa using hpos

/-- **Dividing** until a number is not above the interval at least halves it each time, and does not
lead far below the interval, if the bound allows for enough halvings. -/
theorem divide_spec (n : ℕ) {r : Reduction} (hpos : 0 < r.reduced.toRat)
    (hsteps : r.reduced.toRat ≤ 2 ^ n) :
    (divide n r).reduced.toRat ≤ lnUpper.toRat ∧
      (divide n r = r ∨ 53 / 100 < (divide n r).reduced.toRat) := by
  obtain ⟨helow, hehigh⟩ := e_bounds
  obtain ⟨hupper, -⟩ := lnUpper_bounds
  have hepos : 0 < e.toRat := by linarith
  induction n generalizing r with
  | zero =>
    rw [pow_zero] at hsteps
    rw [divide]
    exact ⟨by linarith, Or.inl rfl⟩
  | succ n ih =>
    rw [divide]
    split
    · next habove =>
      rw [lt_iff] at habove
      have hquotient : 0 ≤ r.reduced.toRat / e.toRat := div_nonneg hpos.le hepos.le
      obtain ⟨hnear, hnear'⟩ := bounds_of_abs_sub_le hquotient (abs_div_sub_le r.reduced hepos.ne')
      have hhalf : (r.reduced / e).toRat ≤ r.reduced.toRat / 2 :=
        calc (r.reduced / e).toRat ≤ r.reduced.toRat / e.toRat * (1 + relativeError) := hnear'
          _ ≤ r.reduced.toRat / (5 / 2) * (1 + relativeError) :=
            mul_le_mul_of_nonneg_right (div_le_div_of_nonneg_left hpos.le (by norm_num) helow)
              (by norm_num [relativeError])
          _ ≤ r.reduced.toRat / 2 := by
            norm_num [relativeError]
            linarith
      have hlow : 53 / 100 < (r.reduced / e).toRat :=
        calc (53 / 100 : ℚ) < 146 / 100 / (272 / 100) * (1 - relativeError) := by
              norm_num [relativeError]
          _ ≤ r.reduced.toRat / e.toRat * (1 - relativeError) := by
            refine mul_le_mul_of_nonneg_right ?_ (by norm_num [relativeError])
            exact div_le_div₀ hpos.le (by linarith) hepos hehigh
          _ ≤ (r.reduced / e).toRat := hnear
      obtain ⟨hends, hcases⟩ := @ih ⟨r.reduced / e, r.count + 1⟩ (by linarith)
        (by rw [pow_succ] at hsteps; linarith)
      refine ⟨hends, Or.inr ?_⟩
      rcases hcases with hsame | hlarge
      · rw [hsame]
        exact hlow
      · exact hlarge
    · next habove =>
      rw [lt_iff, not_lt] at habove
      exact ⟨habove, Or.inl rfl⟩

/-- The bound allows for enough halvings. -/
lemma le_pow_stepBound {x : Decimal} (hpos : 0 < x.toRat) : x.toRat ≤ 2 ^ stepBound x := by
  have hsize := lt_zpow_magnitude x
  rw [abs_of_pos hpos] at hsize
  calc x.toRat ≤ 10 ^ (x.magnitude + 1) := hsize.le
    _ ≤ 10 ^ ((x.magnitude.natAbs + 1 : ℕ) : ℤ) := zpow_le_zpow_right₀ (by norm_num) (by omega)
    _ = 10 ^ (x.magnitude.natAbs + 1) := zpow_natCast _ _
    _ ≤ (2 ^ 4) ^ (x.magnitude.natAbs + 1) := pow_le_pow_left₀ (by norm_num) (by norm_num) _
    _ ≤ (2 ^ 4) ^ (x.magnitude.natAbs + 3) := pow_le_pow_right₀ (by norm_num) (by omega)
    _ = 2 ^ stepBound x := by rw [stepBound, pow_mul]

/-- The logarithm of a number that is not far below one. -/
lemma neg_nine_tenths_le_log {t : ℝ} (h : 53 / 100 < t) : -(9 / 10) ≤ Real.log t := by
  have hlog := Real.one_sub_inv_le_log_of_pos (show 0 < t by linarith)
  have hinverse : t⁻¹ ≤ (53 / 100)⁻¹ := inv_anti₀ (by norm_num) h.le
  norm_num at hinverse
  linarith

/-- **The reduction** of a positive number ends in the interval. -/
theorem of_bounds {x : Decimal} (hpos : 0 < x.toRat) :
    lnLower.toRat ≤ (Reduction.of x).reduced.toRat ∧
      (Reduction.of x).reduced.toRat ≤ 147 / 100 := by
  obtain ⟨hends, hcases⟩ := divide_spec (stepBound x) (r := ⟨x, 0⟩) hpos (le_pow_stepBound hpos)
  obtain ⟨hdivided, -⟩ := total_divide (stepBound x) (r := ⟨x, 0⟩) (Rat.cast_pos.mpr hpos)
  refine multiply_spec (stepBound x) (Rat.cast_pos.mp hdivided) (hends.trans lnUpper_bounds.2.le) ?_
  rcases hcases with hsame | hlarge
  · rw [hsame]
    exact one_le_pow_stepBound_mul hpos
  · have htwo : (2 : ℚ) ^ 1 ≤ 2 ^ stepBound x :=
      pow_le_pow_right₀ (by norm_num) (by rw [stepBound]; omega)
    calc (1 : ℚ) ≤ 2 ^ 1 * (53 / 100) := by norm_num
      _ ≤ 2 ^ stepBound x * (divide (stepBound x) ⟨x, 0⟩).reduced.toRat :=
        mul_le_mul htwo hlarge.le (by norm_num) (by positivity)

/-- What it leaves is at most `47/100` from one. -/
lemma abs_reduced_sub_one_le {x : Decimal} (hpos : 0 < x.toRat) :
    |((Reduction.of x).reduced - 1).toReal| ≤ 47 / 100 := by
  obtain ⟨hlow, hhigh⟩ := of_bounds hpos
  have hrational : |((Reduction.of x).reduced - 1).toRat| ≤ 47 / 100 := by
    rw [toRat_sub, toRat_one, abs_le]
    constructor <;> linarith [lnLower_bounds.1]
  have := (Rat.cast_le (K := ℝ)).mpr hrational
  push_cast at this
  exact this

/-- **The steps of a reduction** are hardly more than the logarithm counts: whole powers of `e` taken
out by divisions, which leave the number not far below one, or put in by multiplications, which do
not lead far above one. -/
theorem steps_le {x : Decimal} (hpos : 0 < x.toRat) :
    ((divide (stepBound x) ⟨x, 0⟩).count : ℝ) +
        ((divide (stepBound x) ⟨x, 0⟩).count - (Reduction.of x).count) ≤
      101 / 100 * |Real.log x.toReal| + 3 := by
  set divided := divide (stepBound x) ⟨x, 0⟩ with hdivided
  obtain ⟨-, hcases⟩ := divide_spec (stepBound x) (r := ⟨x, 0⟩) hpos (le_pow_stepBound hpos)
  obtain ⟨hpos₁, hcount₁, htotal₁⟩ :=
    total_divide (stepBound x) (r := ⟨x, 0⟩) (Rat.cast_pos.mpr hpos)
  rw [← hdivided] at hcases hpos₁ hcount₁ htotal₁
  obtain ⟨hpos₂, hcount₂, htotal₂⟩ := total_multiply (stepBound x) hpos₁
  change 0 < (Reduction.of x).reduced.toReal at hpos₂
  change (Reduction.of x).count ≤ _ at hcount₂
  change |(Reduction.of x).total - _| ≤ stepShift * (_ - (Reduction.of x).count) at htotal₂
  -- where the two loops end, as logarithms
  have hlast : Real.log (Reduction.of x).reduced.toReal ≤ 47 / 100 := by
    have hupper : (Reduction.of x).reduced.toReal ≤ (147 / 100 : ℚ) :=
      Rat.cast_le.mpr (of_bounds hpos).2
    push_cast at hupper
    linarith [Real.log_le_sub_one_of_pos hpos₂]
  have hfirst : divided = ⟨x, 0⟩ ∨ -(9 / 10) ≤ Real.log divided.reduced.toReal := by
    refine hcases.imp_right fun hlarge => neg_nine_tenths_le_log ?_
    have hlower : (53 / 100 : ℚ) < divided.reduced.toReal := Rat.cast_lt.mpr hlarge
    push_cast at hlower
    exact hlower
  have hcount₁' : (0 : ℝ) ≤ divided.count := by exact_mod_cast hcount₁
  have hcount₂' : ((Reduction.of x).count : ℝ) ≤ divided.count := by exact_mod_cast hcount₂
  have hlow := neg_abs_le (Real.log x.toReal)
  have hhigh := le_abs_self (Real.log x.toReal)
  rw [abs_le, stepShift, halfUnit, total, total, Int.cast_zero, sub_zero, add_zero] at htotal₁
  rw [abs_le, stepShift, halfUnit, total, total] at htotal₂
  rcases hfirst with hsame | hfirst
  · have hzero : (divided.count : ℝ) = 0 := by rw [hsame, Int.cast_zero]
    have hsame' : divided.reduced.toReal = x.toReal := by rw [hsame]
    rw [hzero, hsame'] at htotal₂
    rw [hzero] at hcount₂' ⊢
    linarith
  · linarith

/-- **The reduction** of a positive number stands for its logarithm. -/
theorem of_near {x : Decimal} (hpos : 0 < x.toRat) :
    |(Reduction.of x).total - Real.log x.toReal| ≤
      2 / 10 ^ 31 + 1 / 10 ^ 31 * |Real.log x.toReal| := by
  set divided := divide (stepBound x) ⟨x, 0⟩ with hdivided
  obtain ⟨hpos₁, -, htotal₁⟩ := total_divide (stepBound x) (r := ⟨x, 0⟩) (Rat.cast_pos.mpr hpos)
  obtain ⟨-, -, htotal₂⟩ := total_multiply (stepBound x) hpos₁
  change |(Reduction.of x).total - divided.total| ≤
    stepShift * (divided.count - (Reduction.of x).count) at htotal₂
  have hstart : total ⟨x, 0⟩ = Real.log x.toReal := by simp [total]
  rw [hstart, ← hdivided, Int.cast_zero, sub_zero] at htotal₁
  have hshift : stepShift * (divided.count + (divided.count - (Reduction.of x).count)) ≤
      stepShift * (101 / 100 * |Real.log x.toReal| + 3) :=
    mul_le_mul_of_nonneg_left (steps_le hpos) (by norm_num [stepShift, halfUnit])
  calc |(Reduction.of x).total - Real.log x.toReal|
      ≤ |(Reduction.of x).total - divided.total| + |divided.total - Real.log x.toReal| :=
        abs_sub_le _ _ _
    _ ≤ stepShift * (101 / 100 * |Real.log x.toReal| + 3) := by linarith
    _ ≤ 2 / 10 ^ 31 + 1 / 10 ^ 31 * |Real.log x.toReal| := by
        rw [stepShift, halfUnit]
        linarith [abs_nonneg (Real.log x.toReal)]

end Reduction

/-! ### The series -/

/-- A factor of the series of the logarithm. -/
noncomputable def lnFactor (u : ℝ) (k : ℕ) : ℝ := u * (-u) ^ k

/-- A term of the series of the logarithm. -/
noncomputable def lnTerm (u : ℝ) (k : ℕ) : ℝ := lnFactor u k / (k + 1)

section Series

variable {u : ℝ}

/-- The size of a term. -/
lemma abs_lnTerm (u : ℝ) (k : ℕ) : |lnTerm u k| = |u| ^ (k + 1) / (k + 1) := by
  have hpos : (0 : ℝ) < k + 1 := by positivity
  rw [lnTerm, lnFactor, abs_div, abs_mul, abs_pow, abs_neg, abs_of_pos hpos, pow_succ']

/-- The terms fall as the powers do. -/
lemma abs_lnTerm_succ_le (u : ℝ) (k : ℕ) : |lnTerm u (k + 1)| ≤ |u| * |lnTerm u k| := by
  rw [abs_lnTerm, abs_lnTerm, pow_succ', mul_div_assoc]
  refine mul_le_mul_of_nonneg_left ?_ (abs_nonneg u)
  refine div_le_div_of_nonneg_left (by positivity) (by positivity) ?_
  push_cast
  linarith

/-- From the hundredth on, the terms are far below the threshold. -/
lemma abs_lnTerm_le (hu : |u| ≤ 47 / 100) {n : ℕ} (hn : 100 ≤ n) : |lnTerm u n| ≤ 1 / 10 ^ 31 := by
  rw [abs_lnTerm]
  calc |u| ^ (n + 1) / (n + 1) ≤ |u| ^ (n + 1) :=
        div_le_self (by positivity) (by linarith [n.cast_nonneg (α := ℝ)])
    _ ≤ (47 / 100) ^ (n + 1) := pow_le_pow_left₀ (abs_nonneg _) hu _
    _ ≤ (47 / 100) ^ 100 := pow_le_pow_of_le_one (by norm_num) (by norm_num) (by omega)
    _ ≤ 1 / 10 ^ 31 := by norm_num

/-- The number of a term times the term is at most its power. -/
lemma mul_abs_lnTerm_le (u : ℝ) (k : ℕ) : k * |lnTerm u k| ≤ |u| ^ (k + 1) := by
  have hpow : 0 ≤ |u| ^ (k + 1) := by positivity
  rw [abs_lnTerm, ← mul_div_assoc, div_le_iff₀ (by positivity)]
  nlinarith

/-- The series of the logarithm. -/
lemma hasSum_lnTerm (hu : |u| < 1) : HasSum (lnTerm u) (Real.log (1 + u)) := by
  have h := (Real.hasSum_pow_div_log_of_abs_lt_one (x := -u) (by rwa [abs_neg])).neg
  rw [neg_neg, sub_neg_eq_add] at h
  have hterm : lnTerm u = fun k : ℕ => -((-u) ^ (k + 1) / (k + 1)) := by
    funext k
    rw [lnTerm, lnFactor, pow_succ]
    ring
  rw [hterm]
  exact h

end Series

/-- The series of the logarithm has two roundings in each step. -/
lemma lnSeries_follows (u : Decimal) :
    (lnSeries u).Follows 2 (lnFactor u.toReal) (lnTerm u.toReal) := by
  have hnegated : (-u).toReal = -u.toReal := by simp [toReal]
  have hadvance : ∀ (k : ℕ) (f : Decimal), IsNear (stepError 2 k) f.toReal (lnFactor u.toReal k) →
      IsNear ((1 + halfUnit) ^ 1 * (1 + stepError 2 k) - 1) (f * -u).toReal
        (lnFactor u.toReal (k + 1)) := by
    intro k f hf
    have hexact : lnFactor u.toReal (k + 1) = lnFactor u.toReal k * (-u).toReal := by
      rw [lnFactor, lnFactor, hnegated, pow_succ, mul_assoc]
    rw [hexact, pow_one]
    refine ((near_mul_halfUnit f (-u)).trans (hf.mul (IsNear.refl _)) halfUnit_nonneg).mono ?_
    exact le_of_eq (by ring)
  refine ⟨by simp [lnSeries, lnFactor], by simp [lnSeries, lnTerm, lnFactor], fun k f hf => ?_,
    fun k f hf => ?_⟩
  · exact (hadvance k f hf).mono (roundings_le_stepError (by norm_num) k)
  · have hdivisor : (ofInt ((k + 2 : ℕ) : ℤ)).toReal = ((k + 1 : ℕ) : ℝ) + 1 := by
      simp
      ring
    have hquotient := near_div_halfUnit (f * -u) (y := ofInt ((k + 2 : ℕ) : ℤ)) (by
      rw [hdivisor]
      positivity)
    have hexact : IsNear ((1 + halfUnit) ^ 1 * (1 + stepError 2 k) - 1)
        ((f * -u).toReal / (ofInt ((k + 2 : ℕ) : ℤ)).toReal) (lnTerm u.toReal (k + 1)) := by
      rw [hdivisor, lnTerm, div_eq_mul_inv, div_eq_mul_inv]
      refine ((hadvance k f hf).mul (IsNear.refl _)).mono (le_of_eq ?_)
      ring
    refine (hquotient.trans hexact halfUnit_nonneg).mono ?_
    refine le_trans (le_of_eq ?_) (roundings_le_stepError le_rfl k)
    ring

/-- **The series** at an argument of size below a half. -/
theorem lnSeries_near {u : Decimal} (hu : |u.toReal| ≤ 47 / 100) :
    |(lnSeries u).sum.toReal - Real.log (1 + u.toReal)| ≤ 12 / 10 ^ 31 := by
  have hhalf : |u.toReal| ≤ 1 / 2 := hu.trans (by norm_num)
  have hlast := abs_lnTerm_le hu (n := Series.stepBound) (by norm_num [Series.stepBound])
  obtain ⟨k, -, hsmall, hsum⟩ := (lnSeries_follows u).sum_near (by norm_num) hlast
  have htail := abs_sub_sum_le_of_ratio (hasSum_lnTerm (hhalf.trans_lt (by norm_num))) (k := k)
    (abs_nonneg _) (hhalf.trans_lt (by norm_num)) fun j _ => abs_lnTerm_succ_le _ j
  -- what is left out is less than the last term
  have htail' : |u.toReal| * |lnTerm u.toReal k| / (1 - |u.toReal|) ≤ 10 / 10 ^ 31 :=
    calc |u.toReal| * |lnTerm u.toReal k| / (1 - |u.toReal|)
        ≤ 47 / 100 * (11 / 10 ^ 31) / (1 - 47 / 100) := by
          refine div_le_div₀ (by norm_num) (mul_le_mul hu hsmall (abs_nonneg _) (by norm_num))
            (by norm_num) (by linarith)
      _ ≤ 10 / 10 ^ 31 := by norm_num
  have hterms : ∑ i ∈ Finset.range (k + 1), i * |lnTerm u.toReal i| ≤ 1 :=
    calc ∑ i ∈ Finset.range (k + 1), i * |lnTerm u.toReal i|
        ≤ ∑ i ∈ Finset.range (k + 1), (1 / 2 : ℝ) ^ i * (1 / 2) := by
          refine Finset.sum_le_sum fun i _ => (mul_abs_lnTerm_le _ i).trans ?_
          rw [← pow_succ]
          exact pow_le_pow_left₀ (abs_nonneg _) hhalf _
      _ = (∑ i ∈ Finset.range (k + 1), (1 / 2 : ℝ) ^ i) * (1 / 2) := (Finset.sum_mul _ _ _).symm
      _ ≤ 2 * (1 / 2) := mul_le_mul_of_nonneg_right (sum_geometric_two_le _) (by norm_num)
      _ = 1 := by norm_num
  rw [abs_le] at hsum htail ⊢
  norm_num at hsum htail htail' ⊢
  constructor <;> linarith

/-! ### The logarithm -/

/-- Flushing moves a number by less than the threshold. -/
lemma abs_flush_sub_le (x : Decimal) : |(flush x).toReal - x.toReal| ≤ 1 / 10 ^ 30 := by
  rcases lt_or_ge |x.toRat| (1 / 10 ^ 30) with hsmall | hlarge
  · rw [flush_of_lt hsmall, toReal_zero, zero_sub, abs_neg, toReal]
    have : ((|x.toRat| : ℚ) : ℝ) ≤ ((1 / 10 ^ 30 : ℚ) : ℝ) := Rat.cast_le.mpr hsmall.le
    push_cast at this
    exact this
  · rw [flush_of_le hlarge, sub_self, abs_zero]
    positivity

/-- The logarithm of a number that is not positive is undefined. -/
lemma ln_of_nonpos {x : Decimal} (hx : x.toRat ≤ 0) : ln x = .error .lnUndefined := by
  have hpositive : ¬ x.isPositive = true := by
    rw [isPositive_iff]
    exact not_lt.mpr hx
  rw [ln, if_pos (by simpa using hpositive)]

/-- The logarithm of one needs no series. -/
lemma ln_of_eq_one {x : Decimal} (hone : x.toRat = 1) : ln x = .ok 0 := by
  have hpositive : x.isPositive = true := (isPositive_iff x).mpr (hone ▸ one_pos)
  have hequiv : x ≈ 1 := equiv_iff.mpr (hone.trans toRat_one.symm)
  rw [ln, hpositive, if_neg (by simp), if_pos hequiv]

/-- The logarithm of any other positive number is summed and counted from its reduction. -/
lemma ln_of_pos {x : Decimal} (hpos : 0 < x.toRat) (hne : x.toRat ≠ 1) :
    ln x = .ok (flush ((lnSeries ((Reduction.of x).reduced - 1)).sum +
      ofInt (Reduction.of x).count)) := by
  have hequiv : ¬ x ≈ 1 := fun h => hne ((equiv_iff.mp h).trans toRat_one)
  rw [ln, (isPositive_iff x).mpr hpos, if_neg (by simp), if_neg hequiv]

/-- **The logarithm** of a positive number is the real one, up to its errors. -/
theorem ln_near {x : Decimal} (hpos : 0 < x.toRat) :
    ∃ r, ln x = .ok r ∧
      |r.toReal - Real.log x.toReal| ≤ 5 / 10 ^ 30 + 1 / 10 ^ 31 * |Real.log x.toReal| := by
  rcases eq_or_ne x.toRat 1 with hone | hone
  · refine ⟨0, ln_of_eq_one hone, ?_⟩
    rw [toReal, toReal, hone]
    norm_num
  · have htotal := Reduction.of_near hpos
    have hseries := lnSeries_near (Reduction.abs_reduced_sub_one_le hpos)
    rw [ln_of_pos hpos hone]
    set r := Reduction.of x with hr
    have hrest : (r.reduced - 1).toReal = r.reduced.toReal - 1 := by simp [toReal]
    rw [hrest, add_sub_cancel] at hseries
    have hflush := abs_flush_sub_le ((lnSeries (r.reduced - 1)).sum + ofInt r.count)
    rw [toReal_add, toReal_ofInt] at hflush
    refine ⟨_, rfl, ?_⟩
    rw [Reduction.total] at htotal
    rw [abs_le] at hseries hflush htotal ⊢
    norm_num at hseries hflush htotal ⊢
    constructor <;> linarith

end Elementary

end DecimalCalculator
