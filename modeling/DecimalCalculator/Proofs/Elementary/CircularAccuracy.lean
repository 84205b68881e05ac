import Mathlib.Analysis.Complex.ExponentialBounds
import Mathlib.Analysis.SpecialFunctions.Complex.Arctan
import Mathlib.Analysis.SpecialFunctions.Trigonometric.Arctan
import Mathlib.Analysis.SpecialFunctions.Trigonometric.Series
import DecimalCalculator.Elementary.Circular
import DecimalCalculator.Proofs.Decimal.Integral
import DecimalCalculator.Proofs.Elementary.LogarithmAccuracy

/-!
The accuracy of sine and cosine.

* `near_pi`: the constant has 45 digits of the ratio of a circle's circumference to its diameter.
* `exists_turns`: **the turns of an angle**, whole and fraction.
* `reduceAngle_spec`: **the reduction of an angle** takes whole turns away, up to an error in
  proportion to the angle, and leaves less than a turn.
* `circularTerm`: the terms of both series. `sum_mul_circularTerm_le_cosh`: how much their roundings
  weigh together. `alternatingSeries_sum_near`: **both series** at an angle of at most a turn.
* `sin_abs_near`, `cos_near`: **sine and cosine** of an angle and those of the reduced angle.
* `sin_cos_accurate`: **sine and cosine** of any angle.
-/

namespace DecimalCalculator.Elementary

open Decimal

/-! ### The constant -/

/-- A term of the series of the inverse tangent. -/
noncomputable def arctanTerm (x : ℝ) (k : ℕ) : ℝ := (-1) ^ k * x ^ (2 * k + 1) / (2 * k + 1 : ℕ)

/-- The series of the inverse tangent. -/
lemma hasSum_arctanTerm {x : ℝ} (hx : |x| < 1) : HasSum (arctanTerm x) (Real.arctan x) :=
  Real.hasSum_arctan hx

/-- The terms fall as the powers of the square do. -/
lemma abs_arctanTerm_succ_le (x : ℝ) (k : ℕ) :
    |arctanTerm x (k + 1)| ≤ x ^ 2 * |arctanTerm x k| := by
  have habs : ∀ j : ℕ, |arctanTerm x j| = |x| ^ (2 * j + 1) / (2 * j + 1 : ℕ) := by
    intro j
    rw [arctanTerm, abs_div, abs_mul, abs_pow, abs_pow, abs_neg, abs_one, one_pow, one_mul,
      Nat.abs_cast]
  have hpow : |x| ^ (2 * (k + 1) + 1) = x ^ 2 * |x| ^ (2 * k + 1) := by
    rw [← sq_abs]
    ring
  rw [habs, habs, hpow, mul_div_assoc]
  refine mul_le_mul_of_nonneg_left ?_ (sq_nonneg x)
  refine div_le_div_of_nonneg_left (by positivity) (by positivity) ?_
  push_cast
  linarith

/-- The inverse tangents of Machin's formula from the first terms of their series. -/
lemma arctan_partial_sums :
    |Real.arctan 5⁻¹ - ∑ i ∈ Finset.range 34, arctanTerm 5⁻¹ i| ≤ 1 / 10 ^ 47 ∧
      |Real.arctan 239⁻¹ - ∑ i ∈ Finset.range 10, arctanTerm 239⁻¹ i| ≤ 1 / 10 ^ 47 := by
  constructor
  · refine (abs_sub_sum_le_of_ratio (k := 33) (hasSum_arctanTerm (by norm_num [abs_lt]))
      (sq_nonneg _) (by norm_num) fun j _ => abs_arctanTerm_succ_le _ j).trans ?_
    norm_num [arctanTerm, abs_div, abs_mul]
  · refine (abs_sub_sum_le_of_ratio (k := 9) (hasSum_arctanTerm (by norm_num [abs_lt]))
      (sq_nonneg _) (by norm_num) fun j _ => abs_arctanTerm_succ_le _ j).trans ?_
    norm_num [arctanTerm, abs_div, abs_mul]

/-- **The constant `pi`** has 45 digits of the ratio of a circle's circumference to its diameter. -/
theorem near_pi : |pi.toReal - Real.pi| ≤ 1 / 10 ^ 45 := by
  obtain ⟨hfive, hlarge⟩ := arctan_partial_sums
  have hmachin := Real.four_mul_arctan_inv_5_sub_arctan_inv_239
  have hvalue : pi.toReal = 3141592653589793238462643383279502884197169399 / 10 ^ 45 := by
    norm_num [pi, toReal, toRat, zpow_neg]
  norm_num [Finset.sum_range_succ, arctanTerm] at hfive hlarge
  rw [abs_le] at hfive hlarge
  rw [hvalue, abs_le]
  norm_num at hmachin ⊢
  constructor <;> linarith

/-- The value of a full turn. -/
lemma toRat_fullTurn : fullTurn.toRat = 62831853071795864769252867665590 / 10 ^ 31 := by
  have hvalue : fullTurn = ⟨62831853071795864769252867665590, 31⟩ := by decide
  rw [hvalue]
  norm_num [toRat, zpow_neg]

/-- A full turn holds 32 digits of the real one. -/
lemma near_fullTurn : |fullTurn.toReal - 2 * Real.pi| ≤ 6 / 10 ^ 33 := by
  have hpi := near_pi
  have hreal : fullTurn.toReal = 62831853071795864769252867665590 / 10 ^ 31 := by
    rw [toReal, toRat_fullTurn]
    norm_num
  have hconstant : pi.toReal = 3141592653589793238462643383279502884197169399 / 10 ^ 45 := by
    norm_num [pi, toReal, toRat, zpow_neg]
  rw [hconstant, abs_le] at hpi
  rw [hreal, abs_le]
  norm_num at hpi ⊢
  constructor <;> linarith

/-- The size of a full turn. -/
lemma fullTurn_bounds : 628 / 100 ≤ fullTurn.toReal ∧ fullTurn.toReal ≤ 6283186 / 10 ^ 6 := by
  rw [toReal, toRat_fullTurn]
  norm_num

/-! ### The reduction of an angle -/

/-- **The turns of an angle** that is not negative: a whole number of them, not more than the angle
counts, and a fraction. -/
theorem exists_turns {x : Decimal} (hx : 0 ≤ x.toReal) :
    0 ≤ (x / fullTurn).fract.toReal ∧ (x / fullTurn).fract.toReal ≤ 1 ∧
      ∃ n : ℕ, (n : ℝ) ≤ x.toReal ∧
        |x.toReal - (n + (x / fullTurn).fract.toReal) * fullTurn.toReal| ≤ halfUnit * x.toReal := by
  obtain ⟨hlow, -⟩ := fullTurn_bounds
  have hturn : 0 < fullTurn.toReal := by linarith
  have hexact : 0 ≤ x.toReal / fullTurn.toReal := div_nonneg hx hturn.le
  have hturns := near_div_halfUnit x hturn.ne'
  rw [IsNear, abs_of_nonneg hexact] at hturns
  have hnonneg : 0 ≤ (x / fullTurn).toReal := by
    have : halfUnit * (x.toReal / fullTurn.toReal) ≤ 1 * (x.toReal / fullTurn.toReal) :=
      mul_le_mul_of_nonneg_right (by norm_num [halfUnit]) hexact
    rw [abs_le] at hturns
    linarith
  obtain ⟨n, hsplit, hfract, hone⟩ := fract_spec (Rat.cast_nonneg.mp hnonneg)
  have hsplit' : (x / fullTurn).toReal = n + (x / fullTurn).fract.toReal := by
    rw [toReal, hsplit]
    push_cast
    rfl
  have hfract' : 0 ≤ (x / fullTurn).fract.toReal := Rat.cast_nonneg.mpr hfract
  refine ⟨hfract', ?_, n, ?_, ?_⟩
  · rw [toReal]
    exact_mod_cast hone.le
  · have hless : x.toReal / fullTurn.toReal ≤ x.toReal / 2 :=
      div_le_div_of_nonneg_left hx (by norm_num) (by linarith)
    have hgrown : (1 + halfUnit) * (x.toReal / fullTurn.toReal) ≤ 2 * (x.toReal / 2) :=
      mul_le_mul (by norm_num [halfUnit]) hless hexact (by norm_num)
    rw [abs_le] at hturns
    linarith
  · have hscaled := mul_le_mul_of_nonneg_right hturns hturn.le
    rw [← hsplit']
    rwa [← abs_of_pos hturn, ← abs_mul, sub_mul, abs_of_pos hturn, mul_assoc,
      div_mul_cancel₀ _ hturn.ne', abs_sub_comm] at hscaled

/-- **The reduction of an angle** that is not negative leaves less than a turn, and takes whole turns
away, up to an error in proportion to the angle. -/
theorem reduceAngle_spec {x : Decimal} (hx : 0 ≤ x.toReal) :
    0 ≤ (reduceAngle x).toReal ∧ (reduceAngle x).toReal ≤ 62832 / 10 ^ 4 ∧
      ∃ n : ℕ, |x.toReal - n * (2 * Real.pi) - (reduceAngle x).toReal| ≤
        4 / 10 ^ 31 + 1 / 10 ^ 31 * x.toReal := by
  obtain ⟨hlow, hhigh⟩ := fullTurn_bounds
  have hturn : 0 < fullTurn.toReal := by linarith
  obtain ⟨hfract, hone, n, hcount, hquotient⟩ := exists_turns hx
  -- the fraction as an angle
  set fraction := (x / fullTurn).fract with hfraction
  have hangle : IsNear halfUnit (reduceAngle x).toReal (fraction.toReal * fullTurn.toReal) :=
    near_mul_halfUnit fraction fullTurn
  have hpart : 0 ≤ fraction.toReal * fullTurn.toReal := mul_nonneg hfract hturn.le
  have hpart' : fraction.toReal * fullTurn.toReal ≤ 1 * fullTurn.toReal :=
    mul_le_mul_of_nonneg_right hone hturn.le
  have hrounded : halfUnit * (fraction.toReal * fullTurn.toReal) ≤ 4 / 10 ^ 31 := by
    norm_num [halfUnit] at hpart' ⊢
    linarith
  rw [IsNear, abs_of_nonneg hpart] at hangle
  have hangle' := abs_le.mp hangle
  have hkept : 0 ≤ (1 - halfUnit) * (fraction.toReal * fullTurn.toReal) :=
    mul_nonneg (by norm_num [halfUnit]) hpart
  refine ⟨by linarith, by linarith, n, ?_⟩
  -- the turns taken away, each a little different from a real one
  have hturns : |n * (fullTurn.toReal - 2 * Real.pi)| ≤ x.toReal * (6 / 10 ^ 33) := by
    rw [abs_mul, Nat.abs_cast]
    exact mul_le_mul hcount near_fullTurn (abs_nonneg _) hx
  have hsum : x.toReal - n * (2 * Real.pi) - (reduceAngle x).toReal =
      (x.toReal - (n + fraction.toReal) * fullTurn.toReal) +
        n * (fullTurn.toReal - 2 * Real.pi) -
        ((reduceAngle x).toReal - fraction.toReal * fullTurn.toReal) := by ring
  rw [hsum]
  calc _ ≤ |x.toReal - (n + fraction.toReal) * fullTurn.toReal| +
          |n * (fullTurn.toReal - 2 * Real.pi)| +
          |(reduceAngle x).toReal - fraction.toReal * fullTurn.toReal| :=
        (abs_sub _ _).trans (add_le_add_left (abs_add_le _ _) _)
    _ ≤ halfUnit * x.toReal + x.toReal * (6 / 10 ^ 33) + 4 / 10 ^ 31 :=
        add_le_add (add_le_add hquotient hturns) (hangle.trans hrounded)
    _ ≤ 4 / 10 ^ 31 + 1 / 10 ^ 31 * x.toReal := by
        norm_num [halfUnit]
        linarith

/-! ### The terms -/

/-- A term of the series of the cosine (`p = 0`) or of the sine (`p = 1`). -/
noncomputable def circularTerm (p : ℕ) (a : ℝ) (k : ℕ) : ℝ :=
  (-1) ^ k * (a ^ (2 * k + p) / (2 * k + p).factorial)

/-- The series of the cosine. -/
lemma hasSum_circularTerm_zero (a : ℝ) : HasSum (circularTerm 0 a) (Real.cos a) := by
  have hterm : circularTerm 0 a = fun n => (-1) ^ n * a ^ (2 * n) / (2 * n).factorial := by
    funext n
    rw [circularTerm, mul_div_assoc, add_zero]
  rw [hterm]
  exact Real.hasSum_cos a

/-- The series of the sine. -/
lemma hasSum_circularTerm_one (a : ℝ) : HasSum (circularTerm 1 a) (Real.sin a) := by
  have hterm : circularTerm 1 a = fun n => (-1) ^ n * a ^ (2 * n + 1) / (2 * n + 1).factorial := by
    funext n
    rw [circularTerm, mul_div_assoc]
  rw [hterm]
  exact Real.hasSum_sin a

section Terms

variable {a : ℝ} (ha : 0 ≤ a) {p : ℕ}

include ha in
/-- The size of a term. -/
lemma abs_circularTerm (p k : ℕ) :
    |circularTerm p a k| = a ^ (2 * k + p) / (2 * k + p).factorial := by
  rw [circularTerm, abs_mul, abs_pow, abs_neg, abs_one, one_pow, one_mul, abs_of_nonneg]
  positivity

/-- A term from the one before it. -/
lemma circularTerm_succ (p : ℕ) (a : ℝ) (k : ℕ) :
    circularTerm p a (k + 1) =
      circularTerm p a k * -(a ^ 2 / ((2 * k + p + 1) * (2 * k + p + 2))) := by
  have hfactorial : ((2 * (k + 1) + p).factorial : ℝ) =
      (2 * k + p + 2) * ((2 * k + p + 1) * (2 * k + p).factorial) := by
    rw [show 2 * (k + 1) + p = 2 * k + p + 1 + 1 by ring, Nat.factorial_succ, Nat.factorial_succ]
    push_cast
    ring
  rw [circularTerm, circularTerm, hfactorial, show 2 * (k + 1) + p = 2 * k + p + 2 by ring, pow_add,
    pow_succ (-1 : ℝ)]
  field_simp
  ring

include ha in
/-- From an index on that is not below the argument, the terms are halved at least. -/
lemma abs_circularTerm_succ_le {k : ℕ} (hk : a ≤ k + 1) :
    |circularTerm p a (k + 1)| ≤ 1 / 2 * |circularTerm p a k| := by
  have hp : (0 : ℝ) ≤ p := Nat.cast_nonneg p
  have hk' : (0 : ℝ) ≤ k := Nat.cast_nonneg k
  have hsquare : a ^ 2 ≤ ((k : ℝ) + 1) ^ 2 := pow_le_pow_left₀ ha hk 2
  have hproduct : (2 * (k : ℝ) + 1) * (2 * k + 2) ≤ (2 * k + p + 1) * (2 * k + p + 2) :=
    mul_le_mul (by linarith) (by linarith) (by positivity) (by positivity)
  have hratio : a ^ 2 / ((2 * k + p + 1) * (2 * k + p + 2)) ≤ 1 / 2 := by
    rw [div_le_iff₀ (by positivity)]
    nlinarith
  have hnonneg : 0 ≤ a ^ 2 / ((2 * k + p + 1) * (2 * k + p + 2)) := by positivity
  rw [circularTerm_succ, abs_mul, abs_neg, abs_of_nonneg hnonneg, mul_comm]
  exact mul_le_mul_of_nonneg_right hratio (abs_nonneg _)

include ha in
/-- A small term after the first one has such an index, at an angle of at most a turn. -/
lemma le_of_abs_circularTerm_le (hturn : a ≤ 62832 / 10 ^ 4) (hp : p ≤ 1) {k : ℕ} (hk : 0 < k)
    (hsmall : |circularTerm p a k| ≤ 11 / 10 ^ 31) : a ≤ k + 1 := by
  by_contra hlarge
  rw [not_le] at hlarge
  rw [abs_circularTerm ha, div_le_iff₀ (by positivity)] at hsmall
  have hpow : ((k : ℝ) + 1) ^ (2 * k + p) ≤ a ^ (2 * k + p) :=
    pow_le_pow_left₀ (by positivity) hlarge.le _
  have hindex : k < 6 := by
    have : (k : ℝ) < 6 := by
      norm_num at hturn
      linarith
    exact_mod_cast this
  have hbelow := hpow.trans hsmall
  interval_cases k <;> interval_cases p <;> norm_num [Nat.factorial] at hbelow

include ha in
/-- Powers of a small number are far below the factorials. -/
lemma pow_div_factorial_le (hseven : a ≤ 7) {n : ℕ} (hn : 80 ≤ n) :
    a ^ n / n.factorial ≤ 1 / 10 ^ 31 := by
  obtain ⟨j, rfl⟩ := Nat.exists_eq_add_of_le hn
  have hfactorial : (Nat.factorial 80 : ℝ) * 7 ^ j ≤ (80 + j).factorial := by
    have h := (Nat.mul_le_mul_left (Nat.factorial 80)
      (Nat.pow_le_pow_left (show 7 ≤ 80 + 1 by norm_num) j)).trans
        (Nat.factorial_mul_pow_le_factorial (m := 80) (n := j))
    exact_mod_cast h
  calc a ^ (80 + j) / (80 + j).factorial ≤ 7 ^ (80 + j) / (Nat.factorial 80 * 7 ^ j) :=
        div_le_div₀ (by positivity) (pow_le_pow_left₀ ha hseven _) (by positivity) hfactorial
    _ = 7 ^ 80 / Nat.factorial 80 := by
        rw [pow_add]
        exact mul_div_mul_right _ _ (by positivity)
    _ ≤ 1 / 10 ^ 31 := by norm_num [Nat.factorial]

include ha in
/-- The numbers of the terms times the terms: half of the argument times a series without alternating
signs, that of the hyperbolic sine or cosine. -/
lemma sum_mul_circularTerm_le_cosh (hp : p ≤ 1) (k : ℕ) :
    ∑ i ∈ Finset.range (k + 1), i * |circularTerm p a i| ≤ a / 2 * Real.cosh a := by
  have hhalf : 0 ≤ a / 2 := by linarith
  interval_cases p
  · -- each term from the one of the hyperbolic sine before it
    have hterm : ∀ i : ℕ, ((i + 1 : ℕ) : ℝ) * |circularTerm 0 a (i + 1)| =
        a / 2 * (a ^ (2 * i + 1) / (2 * i + 1).factorial) := by
      intro i
      rw [abs_circularTerm ha, show 2 * (i + 1) + 0 = 2 * i + 1 + 1 by ring, Nat.factorial_succ,
        pow_succ]
      push_cast
      field_simp
      ring
    have hsinh := sum_le_hasSum (Finset.range k) (fun i _ => by positivity) (Real.hasSum_sinh a)
    calc ∑ i ∈ Finset.range (k + 1), i * |circularTerm 0 a i|
        = ∑ i ∈ Finset.range k, a / 2 * (a ^ (2 * i + 1) / (2 * i + 1).factorial) := by
          rw [Finset.sum_range_succ', Nat.cast_zero, zero_mul, add_zero]
          exact Finset.sum_congr rfl fun i _ => hterm i
      _ = a / 2 * ∑ i ∈ Finset.range k, a ^ (2 * i + 1) / (2 * i + 1).factorial :=
          (Finset.mul_sum _ _ _).symm
      _ ≤ a / 2 * Real.cosh a :=
          mul_le_mul_of_nonneg_left (hsinh.trans (Real.sinh_lt_cosh a).le) hhalf
  · have hterm : ∀ i : ℕ, (i : ℝ) * |circularTerm 1 a i| ≤
        a / 2 * (a ^ (2 * i) / (2 * i).factorial) := by
      intro i
      have hpart : (i : ℝ) / (2 * i + 1) ≤ 1 / 2 := by
        rw [div_le_div_iff₀ (by positivity) (by norm_num)]
        linarith
      have hsplit : (i : ℝ) * |circularTerm 1 a i| =
          i / (2 * i + 1) * (a * (a ^ (2 * i) / (2 * i).factorial)) := by
        rw [abs_circularTerm ha, Nat.factorial_succ, pow_succ]
        push_cast
        field_simp
      rw [hsplit, div_mul_eq_mul_div a 2, ← one_div_mul_eq_div 2]
      exact mul_le_mul_of_nonneg_right hpart (by positivity)
    have hcosh := sum_le_hasSum (Finset.range (k + 1)) (fun i _ => by positivity)
      (Real.hasSum_cosh a)
    calc ∑ i ∈ Finset.range (k + 1), i * |circularTerm 1 a i|
        ≤ ∑ i ∈ Finset.range (k + 1), a / 2 * (a ^ (2 * i) / (2 * i).factorial) :=
          Finset.sum_le_sum fun i _ => hterm i
      _ = a / 2 * ∑ i ∈ Finset.range (k + 1), a ^ (2 * i) / (2 * i).factorial :=
          (Finset.mul_sum _ _ _).symm
      _ ≤ a / 2 * Real.cosh a := mul_le_mul_of_nonneg_left hcosh hhalf

include ha in
/-- Half of an argument times its hyperbolic cosine, if the argument is not above `n - c`. -/
lemma half_mul_cosh_le {b c : ℝ} {n : ℕ} (hab : a ≤ b) (hc : 0 ≤ c) (hbn : b + c = n) :
    a / 2 * Real.cosh a ≤ b / 4 * (2.7182818286 ^ n / (1 + c + c ^ 2 / 2) + 1) := by
  have hgrowth : Real.exp a ≤ 2.7182818286 ^ n / (1 + c + c ^ 2 / 2) :=
    calc Real.exp a ≤ Real.exp (n * 1 - c) := by
          refine Real.exp_le_exp.mpr ?_
          linarith
      _ = Real.exp 1 ^ n / Real.exp c := by rw [Real.exp_sub, Real.exp_nat_mul]
      _ ≤ 2.7182818286 ^ n / (1 + c + c ^ 2 / 2) :=
          div_le_div₀ (by positivity)
            (pow_le_pow_left₀ (Real.exp_pos 1).le Real.exp_one_lt_d9.le n) (by positivity)
            (Real.quadratic_le_exp_of_nonneg hc)
  have hfall : Real.exp (-a) ≤ 1 := Real.exp_le_one_iff.mpr (by linarith)
  have hcosh : Real.cosh a ≤ (2.7182818286 ^ n / (1 + c + c ^ 2 / 2) + 1) / 2 := by
    rw [Real.cosh_eq]
    linarith
  calc a / 2 * Real.cosh a ≤ b / 2 * ((2.7182818286 ^ n / (1 + c + c ^ 2 / 2) + 1) / 2) :=
        mul_le_mul (by linarith) hcosh (Real.cosh_pos a).le (by linarith)
    _ = b / 4 * (2.7182818286 ^ n / (1 + c + c ^ 2 / 2) + 1) := by ring

end Terms

/-! ### The series -/

/-- Both series have three roundings in each step, one of them that of the square. -/
lemma alternatingSeries_follows (x first : Decimal) (p : ℕ) (hfirst : first.toReal = x.toReal ^ p)
    (hp : p ≤ 1) :
    (alternatingSeries x first (p + 1)).Follows 3 (circularTerm p x.toReal)
      (circularTerm p x.toReal) := by
  have hstart : first.toReal = circularTerm p x.toReal 0 := by
    rw [hfirst, circularTerm]
    interval_cases p <;> simp
  have hstep : ∀ (k : ℕ) (f : Decimal), IsNear (stepError 3 k) f.toReal (circularTerm p x.toReal k) →
      IsNear (stepError 3 (k + 1)) ((alternatingSeries x first (p + 1)).advance k f).toReal
        (circularTerm p x.toReal (k + 1)) := by
    intro k f hf
    set i := p + 1 + 2 * k with hi
    have hdivisor : (ofInt ((i * (i + 1) : ℕ) : ℤ)).toReal = (2 * k + p + 1) * (2 * k + p + 2) := by
      rw [toReal_ofInt, hi]
      push_cast
      ring
    have hpositive : (0 : ℝ) < (2 * k + p + 1) * (2 * k + p + 2) := by positivity
    -- the square, and its quotient
    have hquotient : IsNear ((1 + halfUnit) ^ 2 - 1) ((x * x).dividedBy (i * (i + 1))).toReal
        (x.toReal ^ 2 / ((2 * k + p + 1) * (2 * k + p + 2))) := by
      have hsquare := (near_mul_halfUnit x x).mul
        (IsNear.refl ((2 * k + p + 1) * (2 * k + p + 2) : ℝ)⁻¹)
      have hdivided := near_div_halfUnit (x * x) (y := ofInt ((i * (i + 1) : ℕ) : ℤ)) (by
        rw [hdivisor]
        exact hpositive.ne')
      rw [hdivisor, div_eq_mul_inv] at hdivided
      rw [pow_two x.toReal, div_eq_mul_inv]
      refine (hdivided.trans hsquare halfUnit_nonneg).mono (le_of_eq ?_)
      ring
    rw [circularTerm_succ]
    have hfactor := hf.mul hquotient.neg
    rw [← toReal_neg] at hfactor
    refine ((near_mul_halfUnit f _).trans hfactor halfUnit_nonneg).mono ?_
    refine le_trans (le_of_eq ?_) (roundings_le_stepError le_rfl k)
    ring
  exact ⟨hstart, hstart, hstep, hstep⟩

/-- **Both series** at an angle of at most a turn: the roundings weigh as the hyperbolic cosine of the
angle does. -/
theorem alternatingSeries_sum_near {x first : Decimal} {p : ℕ} (hp : p ≤ 1)
    (hfirst : first.toReal = x.toReal ^ p) (hx : 0 ≤ x.toReal) (hturn : x.toReal ≤ 62832 / 10 ^ 4)
    {s w : ℝ} (hsum : HasSum (circularTerm p x.toReal) s)
    (hweight : x.toReal / 2 * Real.cosh x.toReal ≤ w) :
    |(alternatingSeries x first (p + 1)).sum.toReal - s| ≤ 153 / 10 ^ 33 * w + 11 / 10 ^ 31 := by
  have hlast : |circularTerm p x.toReal Series.stepBound| ≤ 1 / 10 ^ 31 := by
    rw [abs_circularTerm hx]
    refine pow_div_factorial_le hx (hturn.trans (by norm_num)) ?_
    rw [Series.stepBound]
    omega
  obtain ⟨k, hpos, hsmall, hrounded⟩ :=
    (alternatingSeries_follows x first p hfirst hp).sum_near le_rfl hlast
  have hindex := le_of_abs_circularTerm_le hx hturn hp hpos hsmall
  have htail := abs_sub_sum_le_of_ratio hsum (k := k) (by norm_num) (by norm_num) fun j hj =>
    abs_circularTerm_succ_le hx (p := p) (k := j) (hindex.trans (by
      have : (k : ℝ) ≤ j := by exact_mod_cast hj
      linarith))
  have hterms := (sum_mul_circularTerm_le_cosh hx hp k).trans hweight
  rw [abs_le] at hrounded htail ⊢
  norm_num at hrounded htail hsmall ⊢
  constructor <;> linarith

/-- Both series, flushed. -/
theorem alternatingSeries_near {x first : Decimal} {p : ℕ} (hp : p ≤ 1)
    (hfirst : first.toReal = x.toReal ^ p) (hx : 0 ≤ x.toReal) (hturn : x.toReal ≤ 62832 / 10 ^ 4)
    {s : ℝ} (hsum : HasSum (circularTerm p x.toReal) s) :
    |(flush (alternatingSeries x first (p + 1)).sum).toReal - s| ≤ 141 / 10 ^ 30 := by
  have hweight : x.toReal / 2 * Real.cosh x.toReal ≤ 900 :=
    (half_mul_cosh_le hx hturn (c := 7168 / 10 ^ 4) (n := 7) (by norm_num) (by norm_num)).trans
      (by norm_num)
  have hseries := alternatingSeries_sum_near hp hfirst hx hturn hsum hweight
  have hflush := abs_flush_sub_le (alternatingSeries x first (p + 1)).sum
  rw [abs_le] at hseries hflush ⊢
  norm_num at hseries hflush ⊢
  constructor <;> linarith

/-! ### Sine and cosine -/

/-- **The cosine** of an angle is that of the reduced angle. -/
theorem cos_near (x : Decimal) :
    |(cos x).toReal - Real.cos (reduceAngle x.abs).toReal| ≤ 141 / 10 ^ 30 := by
  obtain ⟨hangle, hturn, -⟩ := reduceAngle_spec (x := x.abs) (by simp)
  exact alternatingSeries_near (Nat.zero_le 1) (by simp) hangle hturn (hasSum_circularTerm_zero _)

/-- **The sine** of the size of an angle is that of the reduced angle. -/
theorem sin_abs_near (x : Decimal) :
    |(if x.isNegative then -(sin x).toReal else (sin x).toReal) -
      Real.sin (reduceAngle x.abs).toReal| ≤ 141 / 10 ^ 30 := by
  obtain ⟨hangle, hturn, -⟩ := reduceAngle_spec (x := x.abs) (by simp)
  have hseries := alternatingSeries_near le_rfl (pow_one _).symm hangle hturn
    (hasSum_circularTerm_one _)
  rw [sin]
  split
  · rw [toReal_neg, neg_neg]
    exact hseries
  · exact hseries

/-- The reduction of an angle keeps its sine and its cosine, up to its error. -/
lemma reduceAngle_near (x : Decimal) :
    |Real.sin |x.toReal| - Real.sin (reduceAngle x.abs).toReal| ≤
        4 / 10 ^ 31 + 1 / 10 ^ 31 * |x.toReal| ∧
      |Real.cos x.toReal - Real.cos (reduceAngle x.abs).toReal| ≤
        4 / 10 ^ 31 + 1 / 10 ^ 31 * |x.toReal| := by
  obtain ⟨-, -, n, hreduced⟩ := reduceAngle_spec (x := x.abs) (by simp)
  rw [toReal_abs] at hreduced
  have hsin := Real.abs_sin_sub_sin_le (|x.toReal| - n * (2 * Real.pi)) (reduceAngle x.abs).toReal
  have hcos := Real.abs_cos_sub_cos_le (|x.toReal| - n * (2 * Real.pi)) (reduceAngle x.abs).toReal
  rw [Real.sin_sub_nat_mul_two_pi] at hsin
  rw [Real.cos_sub_nat_mul_two_pi, Real.cos_abs] at hcos
  exact ⟨hsin.trans hreduced, hcos.trans hreduced⟩

end DecimalCalculator.Elementary
