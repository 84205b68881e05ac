import Mathlib.Analysis.SpecificLimits.Basic
import Mathlib.Topology.Algebra.InfiniteSum.NatInt
import DecimalCalculator.Proofs.Decimal.Nearness
import DecimalCalculator.Proofs.Elementary.Logarithm

/-!
How near the sum of a series of rounded terms comes to the exact one.

* `abs_sub_sum_le_of_ratio`: **what an infinite series leaves out** after some terms, if each further
  term is at most a fixed part of the one before it.
* `stepError`: the relative error after some steps of a few roundings each.
* `Series.Follows`: a series of decimals follows an exact one, its factors and terms being rounded in
  each step. `Series.Follows.step`: what one step keeps.
* `Series.Follows.ends`: **such a series ends** with a term below the threshold, long before its last
  possible step.
* `Series.Follows.sum_near`: **its sum** is as near to the exact partial sum as its terms are.
-/

namespace DecimalCalculator.Elementary

open Decimal Filter

/-! ### Exact series -/

/-- **What an infinite series leaves out** after some terms, if from there on the terms fall as those
of a geometric series do. -/
theorem abs_sub_sum_le_of_ratio {t : ℕ → ℝ} {s ρ : ℝ} (hsum : HasSum t s) {k : ℕ} (hρ : 0 ≤ ρ)
    (hone : ρ < 1) (hratio : ∀ j, k ≤ j → |t (j + 1)| ≤ ρ * |t j|) :
    |s - ∑ i ∈ Finset.range (k + 1), t i| ≤ ρ * |t k| / (1 - ρ) := by
  have hterm : ∀ n, |t (k + 1 + n)| ≤ ρ * |t k| * ρ ^ n := by
    intro n
    induction n with
    | zero => simpa using hratio k le_rfl
    | succ n ih =>
      calc |t (k + 1 + n + 1)| ≤ ρ * |t (k + 1 + n)| := hratio _ (by omega)
        _ ≤ ρ * (ρ * |t k| * ρ ^ n) := mul_le_mul_of_nonneg_left ih hρ
        _ = ρ * |t k| * ρ ^ (n + 1) := by ring
  have hdist : ∀ n, dist (∑ i ∈ Finset.range (k + 1 + n), t i)
      (∑ i ∈ Finset.range (k + 1 + (n + 1)), t i) ≤ ρ * |t k| * ρ ^ n := by
    intro n
    rw [← add_assoc, Finset.sum_range_succ, dist_self_add_right, Real.norm_eq_abs]
    exact hterm n
  have hlimit : Tendsto (fun n => ∑ i ∈ Finset.range (k + 1 + n), t i) atTop (nhds s) := by
    have := (tendsto_add_atTop_iff_nat (k + 1)).mpr hsum.tendsto_sum_nat
    simpa only [add_comm] using this
  have hbound := dist_le_of_le_geometric_of_tendsto₀ ρ _ hone hdist hlimit
  rwa [dist_comm, Real.dist_eq, add_zero] at hbound

/-! ### Errors -/

/-- Many small relative errors together are hardly more than their sum. -/
lemma one_add_pow_le_add_sq {δ : ℝ} (hδ : 0 ≤ δ) {n : ℕ} (hn : n * δ ≤ 1) :
    (1 + δ) ^ n ≤ 1 + n * δ + (n * δ) ^ 2 := by
  have hnonneg : 0 ≤ n * δ := by positivity
  have hexp := (abs_le.mp (Real.abs_exp_sub_one_sub_id_le (by rwa [abs_of_nonneg hnonneg]))).2
  calc (1 + δ) ^ n ≤ Real.exp δ ^ n := by
        rw [add_comm]
        exact pow_le_pow_left₀ (by linarith) (Real.add_one_le_exp δ) n
    _ = Real.exp (n * δ) := (Real.exp_nat_mul δ n).symm
    _ ≤ 1 + n * δ + (n * δ) ^ 2 := by linarith

/-- The relative error after `k` steps of `c` roundings each. -/
noncomputable def stepError (c k : ℕ) : ℝ := (1 + halfUnit) ^ (c * k) - 1

section StepError

variable {c k : ℕ}

@[simp] lemma stepError_zero (c : ℕ) : stepError c 0 = 0 := by simp [stepError]

lemma stepError_nonneg (c k : ℕ) : 0 ≤ stepError c k := by
  have := one_le_pow₀ (n := c * k) (show 1 ≤ 1 + halfUnit by linarith [halfUnit_nonneg])
  rw [stepError]
  linarith

/-- One step more has its roundings more. -/
lemma one_add_stepError_succ (c k : ℕ) :
    1 + stepError c (k + 1) = (1 + halfUnit) ^ c * (1 + stepError c k) := by
  rw [stepError, stepError, mul_add, mul_one, pow_add]
  ring

/-- The errors of as many roundings as a step has, or fewer, after those of the steps before it. -/
lemma roundings_le_stepError {n : ℕ} (hn : n ≤ c) (k : ℕ) :
    (1 + halfUnit) ^ n * (1 + stepError c k) - 1 ≤ stepError c (k + 1) := by
  have hpow : (1 + halfUnit) ^ n ≤ (1 + halfUnit) ^ c :=
    pow_le_pow_right₀ (by linarith [halfUnit_nonneg]) hn
  have := mul_le_mul_of_nonneg_right hpow (show 0 ≤ 1 + stepError c k by
    linarith [stepError_nonneg c k])
  linarith [one_add_stepError_succ c k]

/-- The error of a few roundings in each step is about half a unit for each of them. -/
lemma stepError_le (hc : c ≤ 3) (hk : k ≤ Series.stepBound) :
    stepError c k ≤ 51 / 10 ^ 33 * (c * k) := by
  have hcount : ((c * k : ℕ) : ℝ) ≤ 3000 := by
    have : c * k ≤ 3 * 1000 := Nat.mul_le_mul hc hk
    exact_mod_cast this
  have hnonneg : (0 : ℝ) ≤ (c * k : ℕ) := Nat.cast_nonneg _
  have hsmall : ((c * k : ℕ) : ℝ) * halfUnit ≤ 1 / 100 := by
    norm_num [halfUnit] at hcount ⊢
    linarith
  have hpow := one_add_pow_le_add_sq halfUnit_nonneg (hsmall.trans (by norm_num))
  have hsquare : (((c * k : ℕ) : ℝ) * halfUnit) ^ 2 ≤ ((c * k : ℕ) : ℝ) * halfUnit * (1 / 100) := by
    rw [pow_two]
    exact mul_le_mul_of_nonneg_left hsmall (mul_nonneg hnonneg halfUnit_nonneg)
  rw [stepError, ← Nat.cast_mul]
  generalize c * k = n at *
  norm_num [halfUnit] at hpow hsquare ⊢
  linarith

/-- The error of a term is at most a hundredth of it. -/
lemma stepError_le_hundredth (hc : c ≤ 3) (hk : k ≤ Series.stepBound) : stepError c k ≤ 1 / 100 := by
  have hcount : (c * k : ℝ) ≤ 3000 := by
    have : c * k ≤ 3 * 1000 := Nat.mul_le_mul hc hk
    exact_mod_cast this
  refine (stepError_le hc hk).trans ?_
  norm_num
  linarith

end StepError

/-! ### Rounded series -/

namespace Series

variable {s : Series} {c : ℕ} {factor term : ℕ → ℝ}

/-- The series `s` follows the exact one with these factors and terms: each step has at most `c`
roundings, those of its term included. -/
structure Follows (s : Series) (c : ℕ) (factor term : ℕ → ℝ) : Prop where
  first_factor : s.first.toReal = factor 0
  first_term : s.first.toReal = term 0
  advance_near : ∀ k f, IsNear (stepError c k) f.toReal (factor k) →
    IsNear (stepError c (k + 1)) (s.advance k f).toReal (factor (k + 1))
  term_near : ∀ k f, IsNear (stepError c k) f.toReal (factor k) →
    IsNear (stepError c (k + 1)) (s.term k (s.advance k f)).toReal (term (k + 1))

/-- The state of a series after `k` steps: the factor is near the exact one, the sum is as near to
the exact partial sum as its terms are, and the series has ended exactly if the last term is small. -/
structure IsNearState (c : ℕ) (factor term : ℕ → ℝ) (k : ℕ) (state : State) : Prop where
  factor_near : IsNear (stepError c k) state.factor.toReal (factor k)
  sum_near : |state.sum.toReal - ∑ i ∈ Finset.range (k + 1), term i| ≤
    ∑ i ∈ Finset.range (k + 1), stepError c i * |term i|
  of_done : state.done = true → 0 < k ∧ (1 - stepError c k) * |term k| < 1 / 10 ^ 30
  of_not_done : state.done = false → k = 0 ∨ 1 / 10 ^ 30 ≤ (1 + stepError c k) * |term k|

/-- A decimal is below the threshold if its real number is. -/
lemma lt_threshold_iff (x : Decimal) : x.abs < threshold ↔ |x.toReal| < 1 / 10 ^ 30 := by
  rw [lt_iff, toRat_abs, toRat_threshold, ← Rat.cast_lt (K := ℝ)]
  push_cast
  rfl

/-- The state before the first step. -/
lemma Follows.start (h : s.Follows c factor term) : IsNearState c factor term 0 s.start := by
  refine ⟨?_, ?_, fun hdone => absurd hdone (by simp [Series.start]), fun _ => Or.inl rfl⟩
  · simp [Series.start, h.first_factor, IsNear]
  · simp [Series.start, h.first_term]

/-- **A step** keeps the state near the exact one. -/
theorem Follows.step (h : s.Follows c factor term) {k : ℕ} {state : State}
    (hstate : IsNearState c factor term k state) :
    IsNearState c factor term (k + 1) (s.step k state) := by
  have hterm := h.term_near k _ hstate.factor_near
  set last := s.term k (s.advance k state.factor) with hlast
  have hdone : (s.step k state).done = decide (last.abs < threshold) := rfl
  refine ⟨h.advance_near k _ hstate.factor_near, ?_, fun hended => ?_, fun hruns => ?_⟩
  · have hsum : (s.step k state).sum.toReal = state.sum.toReal + last.toReal := toReal_add _ _
    rw [hsum, Finset.sum_range_succ, Finset.sum_range_succ _ (k + 1), add_sub_add_comm]
    exact (abs_add_le _ _).trans (add_le_add hstate.sum_near hterm)
  · rw [hdone, decide_eq_true_eq, lt_threshold_iff] at hended
    exact ⟨Nat.succ_pos k, hterm.mul_le_abs.trans_lt hended⟩
  · rw [hdone, decide_eq_false_iff_not, lt_threshold_iff, not_lt] at hruns
    exact Or.inr (hruns.trans hterm.abs_le_mul)

/-- **The series ends** with a term below the threshold, and not for want of steps, if the exact term
of the last step that it may take is small enough. -/
theorem Follows.ends (h : s.Follows c factor term) (hc : c ≤ 3) {n : ℕ} (hn : 0 < n)
    (hbound : n ≤ stepBound) (hlast : |term n| ≤ 1 / 10 ^ 31) :
    ∃ k ≤ n, IsNearState c factor term k (s.run n 0 s.start) ∧ (s.run n 0 s.start).done = true := by
  obtain ⟨k, hk, hstate, hend⟩ :=
    run_induction (fun k state hstate => h.step hstate) n 0 _ h.start
  rw [zero_add] at hk hend
  refine ⟨k, hk, hstate, hend.elim id fun hsame => ?_⟩
  by_contra hruns
  rw [Bool.not_eq_true] at hruns
  subst hsame
  rcases hstate.of_not_done hruns with hzero | hlarge
  · exact absurd hzero hn.ne'
  · have herror := stepError_le_hundredth hc hbound
    have hsmall : (1 + stepError c k) * |term k| ≤ (1 + 1 / 100) * (1 / 10 ^ 31) :=
      mul_le_mul (by linarith) hlast (abs_nonneg _) (by norm_num)
    have := hlarge.trans hsmall
    norm_num at this

/-- **The sum** of such a series is the exact one up to a term below the threshold, with an error of
half a unit for each rounding of each of its terms. -/
theorem Follows.sum_near (h : s.Follows c factor term) (hc : c ≤ 3)
    (hlast : |term stepBound| ≤ 1 / 10 ^ 31) :
    ∃ k, 0 < k ∧ |term k| ≤ 11 / 10 ^ 31 ∧
      |s.sum.toReal - ∑ i ∈ Finset.range (k + 1), term i| ≤
        51 / 10 ^ 33 * c * ∑ i ∈ Finset.range (k + 1), i * |term i| := by
  obtain ⟨k, hk, hstate, hdone⟩ := h.ends hc (by norm_num [stepBound]) le_rfl hlast
  obtain ⟨hpos, hsmall⟩ := hstate.of_done hdone
  refine ⟨k, hpos, ?_, hstate.sum_near.trans ?_⟩
  · have hless : (1 - 1 / 100) * |term k| ≤ (1 - stepError c k) * |term k| :=
      mul_le_mul_of_nonneg_right (by linarith [stepError_le_hundredth hc hk]) (abs_nonneg _)
    norm_num at hless hsmall ⊢
    linarith
  · rw [Finset.mul_sum]
    refine Finset.sum_le_sum fun i hi => ?_
    have hi' : i ≤ stepBound := by
      rw [Finset.mem_range] at hi
      omega
    calc stepError c i * |term i| ≤ 51 / 10 ^ 33 * (c * i) * |term i| :=
          mul_le_mul_of_nonneg_right (stepError_le hc hi') (abs_nonneg _)
      _ = 51 / 10 ^ 33 * c * (i * |term i|) := by ring

end Series

end DecimalCalculator.Elementary
