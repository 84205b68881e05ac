import Mathlib.Analysis.SpecialFunctions.Integrals.Basic
import DecimalCalculator.Proofs.Expression.ConstantIntegral

/-!
Composite rules, without roundings.

* `weightedSamples`: the samples of a function at the ends of some panels, with the weights of a
  cycle. `weightedSamples_eq_sum_turns`: **they are samples of the rule** on one turn of the cycle
  after the other.
* `primitive`: a primitive of a polynomial. `integral_aeval`: the integral is its difference.
* `mul_weightedSamples_eq_integral`: **a rule that is exact on every turn** gives the integral over
  all turns together.
* `turnSamples_trapezoid`, `turnSamples_simpson`, `turnSamples_simpson38`: the rules on one turn,
  which are exact there for polynomials of small degree.
* `composite_rules_exact`: so **the composite rules** are exact for these.
-/

namespace DecimalCalculator

open Finset Polynomial

/-! ### Samples -/

/-- The samples of a function at the ends of some panels of width `h` from `a` on, added with the
weights of a cycle. -/
def weightedSamples (panels : ℕ) (cycle : List ℕ) (f : ℚ → ℚ) (a h : ℚ) : ℚ :=
  ∑ i ∈ range (panels + 1), cycleWeight panels cycle i * f (a + i * h)

/-- The samples of a function over one turn of a cycle from `x` on, with a one at both ends in place
of the first weight, a two. -/
def turnSamples (cycle : List ℕ) (f : ℚ → ℚ) (x h : ℚ) : ℚ :=
  ∑ r ∈ range cycle.length, cycle.getD r 1 * f (x + r * h) - f x + f (x + cycle.length * h)

variable {cycle : List ℕ} {f F : ℚ → ℚ} {n m : ℕ} {a b h k : ℚ}

/-- **The samples of some turns** of a cycle are those of one turn after the other: where two turns
meet both weights are one. -/
theorem weightedSamples_eq_sum_turns (hn : 0 < n) (hcycle : cycle.head? = some 2) :
    weightedSamples (cycle.length * n) cycle f a h =
      ∑ j ∈ range n, turnSamples cycle f (a + j * (cycle.length * h)) h := by
  have hsum := sum_cycleWeight_mul cycle hn hcycle fun i => f (a + i * h)
  -- the samples where the turns begin and end
  have hends := Finset.sum_range_sub (fun j : ℕ => f (a + j * (cycle.length * h))) n
  have hturns : ∀ j r : ℕ, a + ((cycle.length * j + r : ℕ) : ℚ) * h =
      a + j * (cycle.length * h) + r * h := by
    intro j r
    push_cast
    ring
  have hlast : a + ((cycle.length * n : ℕ) : ℚ) * h = a + n * (cycle.length * h) := by
    push_cast
    ring
  have hnext : ∀ j : ℕ, a + ((j + 1 : ℕ) : ℚ) * (cycle.length * h) =
      a + j * (cycle.length * h) + cycle.length * h := by
    intro j
    push_cast
    ring
  simp only [hturns, hlast, Nat.cast_zero, zero_mul, add_zero] at hsum
  simp only [hnext, Nat.cast_zero, zero_mul, add_zero] at hends
  simp only [turnSamples, sub_add_eq_add_sub, add_sub_assoc, sum_add_distrib, hends]
  rw [weightedSamples]
  linarith

/-- **A rule that is exact on every turn** of its cycle is exact on all turns together. -/
theorem mul_weightedSamples_eq (hn : 0 < n) (hcycle : cycle.head? = some 2)
    (hturn : ∀ x, k * turnSamples cycle f x h = F (x + cycle.length * h) - F x) :
    k * weightedSamples (cycle.length * n) cycle f a h = F (a + n * (cycle.length * h)) - F a := by
  have hnext : ∀ j : ℕ, a + j * (cycle.length * h) + cycle.length * h =
      a + ((j + 1 : ℕ) : ℚ) * (cycle.length * h) := by
    intro j
    push_cast
    ring
  calc k * weightedSamples (cycle.length * n) cycle f a h =
        ∑ j ∈ range n, (F (a + ((j + 1 : ℕ) : ℚ) * (cycle.length * h)) -
          F (a + j * (cycle.length * h))) := by
        simp only [weightedSamples_eq_sum_turns hn hcycle, mul_sum, hturn, hnext]
    _ = F (a + n * (cycle.length * h)) - F a := by
        rw [Finset.sum_range_sub (fun j : ℕ => F (a + j * (cycle.length * h)))]
        simp

/-! ### Polynomials -/

/-- The primitive of the first `m` terms of a polynomial that is zero at zero. -/
def primitive (m : ℕ) (p : ℚ[X]) (x : ℚ) : ℚ :=
  ∑ i ∈ range m, p.coeff i * (x ^ (i + 1) / (i + 1))

variable {p : ℚ[X]}

/-- **The integral** of a polynomial is the difference of its primitive. -/
theorem integral_aeval (hp : p.natDegree < m) (a b : ℚ) :
    ∫ x in (a : ℝ)..b, aeval x p = ((primitive m p b - primitive m p a : ℚ) : ℝ) := by
  have hterms : ∀ x : ℝ, aeval x p = ∑ i ∈ range m, (p.coeff i : ℝ) * x ^ i := by
    intro x
    rw [aeval_eq_sum_range' hp]
    simp only [Rat.smul_def]
  simp only [hterms]
  rw [intervalIntegral.integral_finsetSum fun i _ =>
    Continuous.intervalIntegrable (by fun_prop) _ _]
  simp only [intervalIntegral.integral_const_mul, integral_pow, primitive]
  push_cast
  rw [← sum_sub_distrib]
  refine sum_congr rfl fun i _ => ?_
  ring

/-! ### Rules -/

/-- One turn of the trapezoid rule. -/
lemma turnSamples_trapezoid (f : ℚ → ℚ) (x h : ℚ) :
    turnSamples [2] f x h = f x + f (x + h) := by
  simp [turnSamples]
  ring

/-- One turn of the rule of Simpson. -/
lemma turnSamples_simpson (f : ℚ → ℚ) (x h : ℚ) :
    turnSamples [2, 4] f x h = f x + 4 * f (x + h) + f (x + 2 * h) := by
  simp [turnSamples, sum_range_succ]
  ring

/-- One turn of the rule of Simpson with three panels. -/
lemma turnSamples_simpson38 (f : ℚ → ℚ) (x h : ℚ) :
    turnSamples [2, 3, 3] f x h = f x + 3 * f (x + h) + 3 * f (x + 2 * h) + f (x + 3 * h) := by
  simp [turnSamples, sum_range_succ]
  ring

/-- The trapezoid rule is exact on a turn up to degree one. -/
lemma mul_turnSamples_trapezoid (hp : p.natDegree < 2) (x : ℚ) :
    h / 2 * turnSamples [2] p.eval x h = primitive 2 p (x + h) - primitive 2 p x := by
  rw [turnSamples_trapezoid]
  simp only [primitive, eval_eq_sum_range' hp, sum_range_succ, sum_range_zero]
  push_cast
  ring

/-- The rule of Simpson is exact on a turn up to degree three. -/
lemma mul_turnSamples_simpson (hp : p.natDegree < 4) (x : ℚ) :
    h / 3 * turnSamples [2, 4] p.eval x h = primitive 4 p (x + 2 * h) - primitive 4 p x := by
  rw [turnSamples_simpson]
  simp only [primitive, eval_eq_sum_range' hp, sum_range_succ, sum_range_zero]
  push_cast
  ring

/-- So is the one with three panels. -/
lemma mul_turnSamples_simpson38 (hp : p.natDegree < 4) (x : ℚ) :
    3 * h / 8 * turnSamples [2, 3, 3] p.eval x h =
      primitive 4 p (x + 3 * h) - primitive 4 p x := by
  rw [turnSamples_simpson38]
  simp only [primitive, eval_eq_sum_range' hp, sum_range_succ, sum_range_zero]
  push_cast
  ring

/-- A rule that is exact for a polynomial on every turn gives the integral over all turns. -/
theorem mul_weightedSamples_eq_integral (cycle : List ℕ) (hn : 0 < n)
    (hcycle : cycle.head? = some 2) (hp : p.natDegree < m)
    (hturn : ∀ x, k * turnSamples cycle p.eval x h =
      primitive m p (x + cycle.length * h) - primitive m p x) :
    ((k * weightedSamples (cycle.length * n) cycle p.eval a h : ℚ) : ℝ) =
      ∫ x in (a : ℝ)..(a + (cycle.length * n : ℕ) * h : ℚ), aeval x p := by
  have hend : a + ((cycle.length * n : ℕ) : ℚ) * h = a + n * (cycle.length * h) := by
    push_cast
    ring
  rw [mul_weightedSamples_eq hn hcycle hturn, hend, integral_aeval hp]

/-- **The composite rules are exact** on any number of turns: without roundings the trapezoid rule
gives the integral of a polynomial of degree one or less, and both rules of Simpson give that of a
polynomial of degree three or less. -/
theorem composite_rules_exact (hn : 0 < n) (a h : ℚ) (p : ℚ[X]) :
    (p.degree ≤ 1 → ((h / 2 * weightedSamples n [2] p.eval a h : ℚ) : ℝ) =
      ∫ x in (a : ℝ)..(a + n * h : ℚ), aeval x p) ∧
    (p.degree ≤ 3 → ((h / 3 * weightedSamples (2 * n) [2, 4] p.eval a h : ℚ) : ℝ) =
      ∫ x in (a : ℝ)..(a + (2 * n : ℕ) * h : ℚ), aeval x p) ∧
    (p.degree ≤ 3 → ((3 * h / 8 * weightedSamples (3 * n) [2, 3, 3] p.eval a h : ℚ) : ℝ) =
      ∫ x in (a : ℝ)..(a + (3 * n : ℕ) * h : ℚ), aeval x p) := by
  refine ⟨fun hp => ?_, fun hp => ?_, fun hp => ?_⟩
  · have hdegree : p.natDegree < 2 := Nat.lt_succ_of_le (natDegree_le_of_degree_le hp)
    have harea := mul_weightedSamples_eq_integral [2] (a := a) hn rfl hdegree
      fun x => by simpa using mul_turnSamples_trapezoid (h := h) hdegree x
    rwa [List.length_singleton, one_mul] at harea
  · have hdegree : p.natDegree < 4 := Nat.lt_succ_of_le (natDegree_le_of_degree_le hp)
    exact mul_weightedSamples_eq_integral [2, 4] hn rfl hdegree
      fun x => mul_turnSamples_simpson hdegree x
  · have hdegree : p.natDegree < 4 := Nat.lt_succ_of_le (natDegree_le_of_degree_le hp)
    exact mul_weightedSamples_eq_integral [2, 3, 3] hn rfl hdegree
      fun x => mul_turnSamples_simpson38 hdegree x

/-- A line in two panels, and a cube in four panels and in six. -/
theorem composite_rules_exact_cube :
    ((1 / 3 / 2 * weightedSamples 2 [2] (X : ℚ[X]).eval (-1) (1 / 3) : ℚ) : ℝ) =
        ∫ x in ((-1 : ℚ) : ℝ)..(-1 + (2 : ℕ) * (1 / 3) : ℚ), aeval x (X : ℚ[X]) ∧
      ((1 / 3 / 3 * weightedSamples (2 * 2) [2, 4] (X ^ 3 : ℚ[X]).eval (-1) (1 / 3) : ℚ) : ℝ) =
        ∫ x in ((-1 : ℚ) : ℝ)..(-1 + (2 * 2 : ℕ) * (1 / 3) : ℚ), aeval x (X ^ 3 : ℚ[X]) ∧
      ((3 * (1 / 3) / 8 * weightedSamples (3 * 2) [2, 3, 3] (X ^ 3 : ℚ[X]).eval (-1) (1 / 3) : ℚ) :
          ℝ) =
        ∫ x in ((-1 : ℚ) : ℝ)..(-1 + (3 * 2 : ℕ) * (1 / 3) : ℚ), aeval x (X ^ 3 : ℚ[X]) := by
  have hcube : (X ^ 3 : ℚ[X]).degree ≤ 3 := degree_X_pow_le 3
  obtain ⟨-, hsimpson, hsimpson38⟩ := composite_rules_exact two_pos (-1) (1 / 3) (X ^ 3)
  exact ⟨(composite_rules_exact two_pos (-1) (1 / 3) X).1 degree_X_le, hsimpson hcube,
    hsimpson38 hcube⟩

end DecimalCalculator
