import DecimalCalculator.Proofs.Elementary.Exponential

/-!
The reduction of a logarithm.

* `flush_of_le`, `flush_of_lt`: what is flushed.
* `Reduction.multiply_spec`: **multiplying** ends between the bounds, if it may take as many steps as
  the number can be doubled, and `Reduction.one_le_pow_stepBound_mul`: it may.
-/

namespace DecimalCalculator.Elementary

open Decimal

variable {x : Decimal}

/-! ### Flushing -/

/-- The value of the threshold. -/
lemma toRat_threshold : threshold.toRat = 1 / 10 ^ 30 := by
  norm_num [threshold, toRat, zpow_neg]

/-- What reaches the threshold is not flushed. -/
lemma flush_of_le (h : 1 / 10 ^ 30 ≤ |x.toRat|) : flush x = x := by
  rw [flush, if_neg]
  rw [lt_iff, toRat_abs, toRat_threshold]
  exact not_lt.mpr h

/-- What lies below the threshold is flushed. -/
lemma flush_of_lt (h : |x.toRat| < 1 / 10 ^ 30) : flush x = 0 := by
  rw [flush, if_pos]
  rw [lt_iff, toRat_abs, toRat_threshold]
  exact h

/-- What lies below the threshold is what is flushed to zero. -/
lemma toRat_flush_eq_zero_iff : (flush x).toRat = 0 ↔ |x.toRat| < 1 / 10 ^ 30 := by
  constructor
  · intro hzero
    by_contra hlarge
    rw [flush_of_le (not_lt.mp hlarge)] at hzero
    rw [hzero] at hlarge
    norm_num at hlarge
  · intro hsmall
    rw [flush_of_lt hsmall, toRat_zero]

/-! ### The reduction -/

/-- The interval in which the series is summed. -/
lemma lnLower_bounds : 53 / 100 < lnLower.toRat ∧ lnLower.toRat < 54 / 100 := by
  have hvalue : lnLower = ⟨53788284273999024149768151635633, 32⟩ := by decide
  rw [hvalue]
  norm_num [toRat, zpow_neg]

/-- The upper end of the interval. -/
lemma lnUpper_bounds : 146 / 100 < lnUpper.toRat ∧ lnUpper.toRat < 147 / 100 := by
  have hvalue : lnUpper = ⟨14621171572600097585023184836437, 31⟩ := by decide
  rw [hvalue]
  norm_num [toRat, zpow_neg]

namespace Reduction

/-- **Multiplying** until a number is not below the interval at least doubles it each time, and does
not lead beyond the interval, if the bound allows for enough doublings. -/
theorem multiply_spec (n : ℕ) {r : Reduction} (hpos : 0 < r.reduced.toRat)
    (hhigh : r.reduced.toRat ≤ 147 / 100) (hsteps : 1 ≤ 2 ^ n * r.reduced.toRat) :
    lnLower.toRat ≤ (multiply n r).reduced.toRat ∧ (multiply n r).reduced.toRat ≤ 147 / 100 := by
  obtain ⟨hlower, hlower_lt⟩ := lnLower_bounds
  obtain ⟨helow, hehigh⟩ := e_bounds
  induction n generalizing r with
  | zero =>
    rw [pow_zero, one_mul] at hsteps
    rw [multiply]
    exact ⟨by linarith, hhigh⟩
  | succ n ih =>
    rw [multiply]
    split
    · next hbelow =>
      rw [lt_iff] at hbelow
      -- one more step, on a number of at least twice the size
      have hproduct : 0 ≤ r.reduced.toRat * e.toRat := mul_nonneg hpos.le (by linarith)
      obtain ⟨hnear, hnear'⟩ := bounds_of_abs_sub_le hproduct (abs_mul_sub_le r.reduced e)
      have hfactor : 2 ≤ e.toRat * (1 - relativeError) := by
        norm_num [relativeError]
        linarith
      have hdouble : 2 * r.reduced.toRat ≤ (r.reduced * e).toRat :=
        calc 2 * r.reduced.toRat = r.reduced.toRat * 2 := mul_comm _ _
          _ ≤ r.reduced.toRat * (e.toRat * (1 - relativeError)) :=
            mul_le_mul_of_nonneg_left hfactor hpos.le
          _ = r.reduced.toRat * e.toRat * (1 - relativeError) := by ring
          _ ≤ (r.reduced * e).toRat := hnear
      have hexact : r.reduced.toRat * e.toRat ≤ 54 / 100 * (272 / 100) :=
        mul_le_mul (by linarith) hehigh (by linarith) (by norm_num)
      have hbound : (r.reduced * e).toRat ≤ 147 / 100 :=
        calc (r.reduced * e).toRat ≤ r.reduced.toRat * e.toRat * (1 + relativeError) := hnear'
          _ ≤ 54 / 100 * (272 / 100) * (1 + relativeError) :=
            mul_le_mul_of_nonneg_right hexact (by norm_num [relativeError])
          _ ≤ 147 / 100 := by norm_num [relativeError]
      have hmore : 1 ≤ 2 ^ n * (r.reduced * e).toRat := by
        refine hsteps.trans ?_
        rw [pow_succ, mul_assoc]
        exact mul_le_mul_of_nonneg_left hdouble (by positivity)
      exact @ih ⟨r.reduced * e, r.count - 1⟩ (lt_of_lt_of_le (by linarith) hdouble) hbound hmore
    · next hbelow =>
      rw [lt_iff, not_lt] at hbelow
      exact ⟨hbelow, hhigh⟩

/-- The bound allows for enough doublings: sixteen is more than ten, once for each power of ten. -/
lemma one_le_pow_stepBound_mul (hpos : 0 < x.toRat) : 1 ≤ 2 ^ stepBound x * x.toRat := by
  have hsize := zpow_magnitude_le hpos.ne'
  rw [abs_of_pos hpos] at hsize
  have hten : (1 : ℚ) ≤ 10 ^ x.magnitude.natAbs * 10 ^ x.magnitude := by
    rw [← zpow_natCast, ← zpow_add₀ (by norm_num)]
    exact one_le_zpow₀ (by norm_num) (by omega)
  have hsixteen : (10 : ℚ) ^ x.magnitude.natAbs ≤ 2 ^ stepBound x := by
    rw [stepBound, pow_mul]
    calc (10 : ℚ) ^ x.magnitude.natAbs ≤ (2 ^ 4) ^ x.magnitude.natAbs :=
          pow_le_pow_left₀ (by norm_num) (by norm_num) _
      _ ≤ (2 ^ 4) ^ (x.magnitude.natAbs + 3) := pow_le_pow_right₀ (by norm_num) (by omega)
  calc (1 : ℚ) ≤ 10 ^ x.magnitude.natAbs * 10 ^ x.magnitude := hten
    _ ≤ 2 ^ stepBound x * x.toRat :=
      mul_le_mul hsixteen hsize (zpow_ten_pos _).le (by positivity)

end Reduction

end DecimalCalculator.Elementary
