import Mathlib.Analysis.Real.Pi.Bounds
import DecimalCalculator.Proofs.Elementary.CircularAccuracy
import DecimalCalculator.Proofs.Elementary.CircularDigits

/-!
Where the sums of sine and cosine are below the threshold.

* `exists_near_multiple_pi`: **an angle with a small sine** is as near to a multiple of half a turn.
* `exists_mantissa`, `reduceAngle_lt_fullTurn`: the digits of a reduced angle, which is less than a full
  turn.
* `Plan.small_near`: what a plan finds in a window of angles. `sine_angle_cases`, `cosine_angle_cases`:
  **an angle with a small sum** is in such a window, unless it is very small.
* `sine_sum_small`, `cosine_sum_small`: so **a sum near zero** is below the threshold, and only at angles
  within twenty units in the last digit of a zero.
* `cos_eq_zero_iff`, `sin_eq_zero_iff`: **cosine and sine are zero** where these sums are small.
* `exists_sum_of_small`: the sums at very small angles.
-/

namespace DecimalCalculator.Elementary

open Decimal

/-! ### Zeros of the real functions -/

/-- **An angle with a small sine** is as near to a multiple of half a turn. -/
theorem exists_near_multiple_pi {a δ : ℝ} (h : |Real.sin a| ≤ δ) (hδ : δ ≤ 1 / 10 ^ 20) :
    ∃ m : ℤ, |a - m * Real.pi| ≤ δ + 1 / 10 ^ 50 := by
  set m : ℤ := round (a / Real.pi) with hm
  have hpi := Real.pi_pos
  refine ⟨m, ?_⟩
  set b := a - m * Real.pi with hb
  have hquarter : |b| ≤ Real.pi / 2 := by
    have hround := abs_sub_round (a / Real.pi)
    have hscaled : b = (a / Real.pi - m) * Real.pi := by
      rw [hb, sub_mul, div_mul_cancel₀ _ hpi.ne']
    rw [hscaled, abs_mul, abs_of_pos hpi]
    calc |a / Real.pi - m| * Real.pi ≤ 1 / 2 * Real.pi :=
          mul_le_mul_of_nonneg_right hround hpi.le
      _ = Real.pi / 2 := by ring
  have hsine : |Real.sin b| = |Real.sin a| := by
    rw [hb, Real.sin_sub_int_mul_pi, abs_mul, abs_zpow, abs_neg, abs_one, one_zpow, one_mul]
  -- the sine of a small angle, first with room, then sharply
  have hcoarse : |b| ≤ 2 * δ := by
    have hjordan := Real.mul_abs_le_abs_sin hquarter
    have hslope : 1 / 2 ≤ 2 / Real.pi := by
      rw [div_le_div_iff₀ (by norm_num) hpi]
      linarith [Real.pi_le_four]
    have := mul_le_mul_of_nonneg_right hslope (abs_nonneg b)
    linarith
  rcases (abs_nonneg b).eq_or_lt with hzero | hpos
  · rw [← hzero]
    have := (abs_nonneg _).trans h
    positivity
  · have hcube := Real.sin_gt_sub_cube hpos
    have habs : Real.sin |b| = |Real.sin b| := (Real.abs_sin_eq_sin_abs_of_abs_le_pi (by
      linarith)).symm
    have hpow : |b| ^ 3 ≤ (2 / 10 ^ 20) ^ 3 := by
      refine pow_le_pow_left₀ hpos.le ?_ 3
      norm_num at hδ ⊢
      linarith
    rw [habs, hsine] at hcube
    norm_num at hpow ⊢
    linarith

/-- An angle with a small sine, near a multiple of half a turn, is as near to that multiple. -/
lemma near_multiple_pi {a δ : ℝ} {m : ℤ} (hnear : |a - m * Real.pi| ≤ 1) (h : |Real.sin a| ≤ δ)
    (hδ : δ ≤ 1 / 10 ^ 20) : |a - m * Real.pi| ≤ δ + 1 / 10 ^ 50 := by
  obtain ⟨m', hm'⟩ := exists_near_multiple_pi h hδ
  -- two multiples are not that near to each other
  have hsame : m' = m := by
    have hpi := Real.pi_gt_three
    have hdist : |((m' - m : ℤ) : ℝ)| * Real.pi < 1 * Real.pi := by
      rw [← abs_of_pos Real.pi_pos, ← abs_mul, abs_of_pos Real.pi_pos, one_mul]
      have hsplit : ((m' - m : ℤ) : ℝ) * Real.pi = (a - m * Real.pi) - (a - m' * Real.pi) := by
        push_cast
        ring
      rw [hsplit]
      have := abs_sub (a - m * Real.pi) (a - m' * Real.pi)
      norm_num at hδ hm'
      linarith
    have hlt := lt_of_mul_lt_mul_right hdist Real.pi_pos.le
    rw [← Int.cast_abs, ← Int.cast_one, Int.cast_lt, Int.abs_lt_one_iff] at hlt
    omega
  rwa [hsame] at hm'

/-- The first digits of half a turn. -/
lemma pi_bounds : 31415926535897932384626433832795 / 10 ^ 31 ≤ Real.pi ∧
    Real.pi ≤ 314159265358979323846264338327951 / 10 ^ 32 := by
  have hpi := near_pi
  have hvalue : pi.toReal = 3141592653589793238462643383279502884197169399 / 10 ^ 45 := by
    norm_num [pi, toReal, toRat, zpow_neg]
  rw [hvalue, abs_le] at hpi
  norm_num at hpi ⊢
  constructor <;> linarith

/-! ### Digits of reduced angles -/

/-- A number of 32 digits between one and ten counts units of `10 ^ (-31)`. -/
lemma exists_mantissa {q : ℚ} (hone : 1 < roundSignificant workingDigits q)
    (hten : roundSignificant workingDigits q < 10) :
    ∃ n : ℕ, roundSignificant workingDigits q = n / 10 ^ 31 := by
  have hq : 0 < q := by
    by_contra hneg
    have := roundSignificant_mono workingDigits_pos (not_lt.mp hneg)
    rw [roundSignificant_zero] at this
    linarith
  obtain ⟨hlow, hhigh⟩ := roundSignificant_bounds workingDigits_pos hq
  have hlog : Int.log 10 q = 0 := by
    have hbelow : (10 : ℚ) ^ Int.log 10 q < 10 ^ (1 : ℤ) := by
      rw [zpow_one]
      linarith
    have habove : (10 : ℚ) ^ (0 : ℤ) < 10 ^ (Int.log 10 q + 1) := by
      rw [zpow_zero]
      linarith
    rw [zpow_lt_zpow_iff_right₀ (by norm_num)] at hbelow habove
    omega
  obtain ⟨⟨n, hn⟩, -⟩ := (roundSignificant_eq_iff (w := roundSignificant workingDigits q) hq).mp rfl
  have hplace : lastPlace workingDigits q = 1 / 10 ^ 31 := by
    rw [lastPlace, abs_of_pos hq, hlog]
    norm_num [workingDigits, zpow_neg]
  rw [hplace, mul_one_div] at hn
  have hpos : 0 ≤ n := by
    by_contra hneg
    rw [hn, lt_div_iff₀ (by positivity)] at hone
    have : (n : ℚ) < 0 := by exact_mod_cast not_le.mp hneg
    norm_num at hone
    linarith
  refine ⟨n.toNat, ?_⟩
  rw [hn]
  congr 1
  exact_mod_cast (Int.toNat_of_nonneg hpos).symm

/-- Which of two neighbouring counts of such units a number reaches, the middle between them decides. -/
lemma succ_div_le_round_iff {q : ℚ} {n : ℕ} (hq : 0 < q) (hlow : 10 ^ 31 ≤ n) (hhigh : n < 10 ^ 32) :
    (n + 1) / 10 ^ 31 ≤ roundSignificant workingDigits q ↔ (n + 1 / 2) / 10 ^ 31 ≤ q := by
  have hcut := succ_le_roundSignificant_iff (k := -31) hq workingDigits_pos hlow hhigh
  rwa [zpow_neg, ← div_eq_mul_inv, ← div_eq_mul_inv] at hcut

/-- A reduced angle is the product of a fraction and a full turn. -/
lemma toRat_reduceAngle (x : Decimal) : (reduceAngle x).toRat =
    roundSignificant workingDigits ((x / fullTurn).fract.toRat * fullTurn.toRat) := toRat_mul _ _

/-- **A reduced angle** is less than a full turn: the fraction of a turn keeps a distance of one unit in
its last digit from one, which leaves the angle below the middle between a full turn and the number
before it. -/
theorem reduceAngle_lt_fullTurn {x : Decimal} (hx : 0 ≤ x.toReal) :
    (reduceAngle x).toRat < fullTurn.toRat := by
  rw [toRat_reduceAngle, ← not_le]
  set fraction := (x / fullTurn).fract with hfraction
  obtain ⟨hnonneg, -⟩ := exists_turns hx
  have hbelow : fraction.toRat ≤ 1 - 1 / 10 ^ workingDigits := by
    have hless : fraction.toRat < 1 := by
      have hquotient : 0 ≤ (x / fullTurn).toRat := by
        rw [toRat_div, ← roundSignificant_zero workingDigits]
        refine roundSignificant_mono workingDigits_pos (div_nonneg (Rat.cast_nonneg.mp hx) ?_)
        rw [toRat_fullTurn]
        positivity
      obtain ⟨-, -, -, hless⟩ := fract_spec hquotient
      exact hless
    exact le_one_sub ((precision_fract_le _).trans (precision_div_le _ _)) hless
  intro hlarge
  have hpos : 0 < fraction.toRat * fullTurn.toRat := by
    refine lt_of_le_of_ne (mul_nonneg (Rat.cast_nonneg.mp hnonneg) ?_) fun hzero => ?_
    · rw [toRat_fullTurn]
      positivity
    · rw [← hzero, roundSignificant_zero, toRat_fullTurn] at hlarge
      norm_num at hlarge
  have hmiddle := (succ_div_le_round_iff (n := 62831853071795864769252867665589) hpos (by norm_num)
    (by norm_num)).mp (by
      refine le_trans (le_of_eq ?_) hlarge
      rw [toRat_fullTurn]
      norm_num)
  rw [toRat_fullTurn] at hmiddle
  norm_num [workingDigits] at hbelow hmiddle
  linarith

/-! ### Sums near zero -/

/-- What a plan finds in a window is so for the sum at a reduced angle there. -/
lemma Plan.small_near {p : ℕ} {plan : Plan p} {center low count : ℕ}
    (hcheck : ∀ j < count, plan.isSettled center (low + j) = true) (hp : p ≤ 1) {x first : Decimal}
    (hfirst : first.toRat = (reduceAngle x).toRat ^ p) (hone : 1 < (reduceAngle x).toReal)
    (hlow : low / 10 ^ 31 ≤ (reduceAngle x).toReal)
    (hhigh : (reduceAngle x).toReal < (low + count) / 10 ^ 31) (hcount : low + count ≤ 10 ^ 32)
    (hsmall : |(alternatingSeries (reduceAngle x) first (p + 1)).sum.toRat| < 103 / 10 ^ 32) :
    |(alternatingSeries (reduceAngle x) first (p + 1)).sum.toRat| < 1 / 10 ^ 30 ∧
      |(reduceAngle x).toRat - center / 10 ^ 31| ≤ 20 / 10 ^ 31 := by
  have hten : (reduceAngle x).toReal < 10 := by
    have : ((low + count : ℕ) : ℝ) ≤ 10 ^ 32 := by exact_mod_cast hcount
    push_cast at this
    calc (reduceAngle x).toReal < (low + count) / 10 ^ 31 := hhigh
      _ ≤ 10 ^ 32 / 10 ^ 31 := div_le_div_of_nonneg_right this (by positivity)
      _ = 10 := by norm_num
  obtain ⟨n, hn⟩ : ∃ n : ℕ, (reduceAngle x).toRat = n / 10 ^ 31 := by
    rw [toReal] at hone hten
    rw [toRat_reduceAngle] at hone hten ⊢
    exact exists_mantissa (by exact_mod_cast hone) (by exact_mod_cast hten)
  have hreal : (reduceAngle x).toReal = n / 10 ^ 31 := by
    rw [toReal, hn]
    push_cast
    rfl
  rw [hreal] at hlow hhigh
  rw [div_le_div_iff_of_pos_right (by positivity)] at hlow
  rw [div_lt_div_iff_of_pos_right (by positivity)] at hhigh
  have hlow' : low ≤ n := by exact_mod_cast hlow
  have hhigh' : n < low + count := by exact_mod_cast hhigh
  have hsettled := hcheck (n - low) (by omega)
  rw [Nat.add_sub_cancel' hlow'] at hsettled
  exact plan.small_of_isSettled hp hn hfirst hsettled hsmall

/-! ### Angles with a small sum -/

/-- A real value that a small sum at an angle may stand for, as its roundings weigh at that angle. -/
structure IsNearSmallSum (θ s : ℝ) : Prop where
  abs_le : ∀ w, θ / 2 * Real.cosh θ ≤ w → |s| ≤ 153 / 10 ^ 33 * w + 213 / 10 ^ 32

/-- A small sum stands for such a value. -/
lemma isNearSmallSum {x first : Decimal} {p : ℕ} (hp : p ≤ 1) (hfirst : first.toReal = x.toReal ^ p)
    (hx : 0 ≤ x.toReal) (hturn : x.toReal ≤ 62832 / 10 ^ 4) {s : ℝ}
    (hsum : HasSum (circularTerm p x.toReal) s)
    (hsmall : |(alternatingSeries x first (p + 1)).sum.toRat| < 103 / 10 ^ 32) :
    IsNearSmallSum x.toReal s := by
  refine ⟨fun w hw => ?_⟩
  have hnear := alternatingSeries_sum_near hp hfirst hx hturn hsum hw
  have hsmall' : |(alternatingSeries x first (p + 1)).sum.toReal| < 103 / 10 ^ 32 := by
    have hcast := (Rat.cast_lt (K := ℝ)).mpr hsmall
    push_cast at hcast
    exact hcast
  rw [abs_le] at hnear ⊢
  rw [abs_lt] at hsmall'
  norm_num at hnear hsmall' ⊢
  constructor <;> linarith

section Angles

variable {θ a : ℝ}

/-- Near to a larger number there is no smaller multiple of half a turn. -/
lemma lt_multiple {l m : ℤ} (h : |a - m * Real.pi| ≤ 1) (hl : l * Real.pi + 1 < a) : l < m := by
  rw [abs_le] at h
  have hlt : (l : ℝ) * Real.pi < m * Real.pi := by linarith
  exact_mod_cast lt_of_mul_lt_mul_right hlt Real.pi_pos.le

/-- Near to a smaller number there is no larger multiple of half a turn. -/
lemma multiple_lt {m u : ℤ} (h : |a - m * Real.pi| ≤ 1) (hu : a < u * Real.pi - 1) : m < u := by
  rw [abs_le] at h
  have hlt : (m : ℝ) * Real.pi < u * Real.pi := by linarith
  exact_mod_cast lt_of_mul_lt_mul_right hlt Real.pi_pos.le

/-- A sine that a small sum stands for is that of an angle near to a multiple of half a turn. -/
lemma IsNearSmallSum.exists_multiple (h : IsNearSmallSum θ (Real.sin a)) (hθ : 0 ≤ θ)
    (hturn : θ ≤ 62832 / 10 ^ 4) : ∃ m : ℤ, |a - m * Real.pi| ≤ 1 / 10 ^ 20 := by
  have hweight : θ / 2 * Real.cosh θ ≤ 900 :=
    (half_mul_cosh_le hθ hturn (c := 7168 / 10 ^ 4) (n := 7) (by norm_num) (by norm_num)).trans
      (by norm_num)
  obtain ⟨m, hm⟩ := exists_near_multiple_pi (h.abs_le 900 hweight) (by norm_num)
  exact ⟨m, hm.trans (by norm_num)⟩

/-- The less the roundings weigh, the nearer is the multiple. -/
lemma IsNearSmallSum.near_multiple (h : IsNearSmallSum θ (Real.sin a)) {m : ℤ}
    (hnear : |a - m * Real.pi| ≤ 1 / 10 ^ 20) {w : ℝ} (hw : θ / 2 * Real.cosh θ ≤ w) (hmax : w ≤ 900) :
    |a - m * Real.pi| ≤ 153 / 10 ^ 33 * w + 214 / 10 ^ 32 := by
  refine (near_multiple_pi (hnear.trans (by norm_num)) (h.abs_le w hw) ?_).trans ?_
  · norm_num
    linarith
  · norm_num
    linarith

/-- **An angle whose sine has a small sum** is tiny, or near to half a turn or a full turn. -/
theorem sine_angle_cases (h : IsNearSmallSum θ (Real.sin θ)) (hθ : 0 ≤ θ) (hturn : θ ≤ 62832 / 10 ^ 4) :
    θ ≤ 22 / 10 ^ 31 ∨ |θ - Real.pi| ≤ 6 / 10 ^ 30 ∨ |θ - 2 * Real.pi| ≤ 14 / 10 ^ 29 := by
  have hpi := Real.pi_gt_three
  have hpi' := Real.pi_lt_d6
  obtain ⟨m, hm⟩ := h.exists_multiple hθ hturn
  have hcases : m = 0 ∨ m = 1 ∨ m = 2 := by
    have hcoarse : |θ - m * Real.pi| ≤ 1 := hm.trans (by norm_num)
    have hlower : -1 < m := lt_multiple hcoarse (by push_cast; linarith)
    have hupper : m < 3 := multiple_lt hcoarse (by push_cast; norm_num at hturn; linarith)
    omega
  rcases hcases with rfl | rfl | rfl
  · have hle : θ ≤ 1 / 10 ^ 2 := by
      rw [Int.cast_zero, zero_mul, sub_zero, abs_le] at hm
      norm_num at hm ⊢
      linarith
    have hnear := h.near_multiple hm (w := 1 / 10 ^ 2) ((half_mul_cosh_le hθ hle
      (c := 99 / 10 ^ 2) (n := 1) (by norm_num) (by norm_num)).trans (by norm_num)) (by norm_num)
    rw [Int.cast_zero, zero_mul, sub_zero, abs_of_nonneg hθ] at hnear
    exact Or.inl (hnear.trans (by norm_num))
  · have hle : θ ≤ 31416 / 10 ^ 4 := by
      rw [Int.cast_one, one_mul, abs_le] at hm
      norm_num at hm hpi' ⊢
      linarith
    have hnear := h.near_multiple hm (w := 201 / 10) ((half_mul_cosh_le hθ hle
      (c := 8584 / 10 ^ 4) (n := 4) (by norm_num) (by norm_num)).trans (by norm_num)) (by norm_num)
    rw [Int.cast_one, one_mul] at hnear
    exact Or.inr (Or.inl (hnear.trans (by norm_num)))
  · have hnear := h.near_multiple hm (w := 900) ((half_mul_cosh_le hθ hturn
      (c := 7168 / 10 ^ 4) (n := 7) (by norm_num) (by norm_num)).trans (by norm_num)) le_rfl
    rw [Int.cast_ofNat] at hnear
    exact Or.inr (Or.inr (hnear.trans (by norm_num)))

/-- **An angle whose cosine has a small sum** is near to a quarter or three quarters of a turn. -/
theorem cosine_angle_cases (h : IsNearSmallSum θ (Real.cos θ)) (hθ : 0 ≤ θ)
    (hturn : θ ≤ 62832 / 10 ^ 4) :
    |θ - Real.pi / 2| ≤ 3 / 10 ^ 30 ∨ |θ - 3 * (Real.pi / 2)| ≤ 23 / 10 ^ 30 := by
  have hpi := Real.pi_gt_d2
  have hpi' := Real.pi_lt_d6
  -- the cosine is the sine of an angle a quarter of a turn above
  rw [← Real.sin_add_pi_div_two] at h
  obtain ⟨m, hm⟩ := h.exists_multiple hθ hturn
  have hcases : m = 1 ∨ m = 2 := by
    have hcoarse : |θ + Real.pi / 2 - m * Real.pi| ≤ 1 := hm.trans (by norm_num)
    have hlower : 0 < m := lt_multiple hcoarse (by push_cast; linarith)
    have hupper : m < 3 := multiple_lt hcoarse (by push_cast; norm_num at hturn; linarith)
    omega
  rcases hcases with rfl | rfl
  · have hback : θ + Real.pi / 2 - (1 : ℤ) * Real.pi = θ - Real.pi / 2 := by
      push_cast
      ring
    have hle : θ ≤ 15708 / 10 ^ 4 := by
      rw [hback, abs_le] at hm
      norm_num at hm hpi' ⊢
      linarith
    have hnear := h.near_multiple hm (w := 3) ((half_mul_cosh_le hθ hle
      (c := 4292 / 10 ^ 4) (n := 2) (by norm_num) (by norm_num)).trans (by norm_num)) (by norm_num)
    rw [hback] at hnear
    exact Or.inl (hnear.trans (by norm_num))
  · have hback : θ + Real.pi / 2 - (2 : ℤ) * Real.pi = θ - 3 * (Real.pi / 2) := by
      push_cast
      ring
    have hle : θ ≤ 47124 / 10 ^ 4 := by
      rw [hback, abs_le] at hm
      norm_num at hm hpi' ⊢
      linarith
    have hnear := h.near_multiple hm (w := 133) ((half_mul_cosh_le hθ hle
      (c := 2876 / 10 ^ 4) (n := 5) (by norm_num) (by norm_num)).trans (by norm_num)) (by norm_num)
    rw [hback] at hnear
    exact Or.inr (hnear.trans (by norm_num))

end Angles

/-! ### Small sums -/

variable {x : Decimal}

/-- **Sums of the sine near zero** are below the threshold, unless the angle is very small; they are
those at angles within twenty units in the last digit of half a turn or a full turn. -/
theorem sine_sum_small (hx : 0 ≤ x.toReal)
    (hsmall : |(alternatingSeries (reduceAngle x) (reduceAngle x) 2).sum.toRat| < 103 / 10 ^ 32) :
    (reduceAngle x).toRat ≤ 22 / 10 ^ 31 ∨
      |(alternatingSeries (reduceAngle x) (reduceAngle x) 2).sum.toRat| < 1 / 10 ^ 30 ∧
        (|(reduceAngle x).toRat - 31415926535897932384626433832795 / 10 ^ 31| ≤ 20 / 10 ^ 31 ∨
          |(reduceAngle x).toRat - 62831853071795864769252867665590 / 10 ^ 31| ≤ 20 / 10 ^ 31) := by
  obtain ⟨hangle, hturn, -⟩ := reduceAngle_spec hx
  obtain ⟨hlow, hhigh⟩ := pi_bounds
  have hpi := Real.pi_gt_three
  have hsum := isNearSmallSum le_rfl (pow_one _).symm hangle hturn (hasSum_circularTerm_one _) hsmall
  rcases sine_angle_cases hsum hangle hturn with htiny | hnear | hnear
  · left
    have hreal : (reduceAngle x).toReal ≤ (22 / 10 ^ 31 : ℚ) := by
      push_cast
      exact htiny
    exact Rat.cast_le.mp hreal
  · rw [abs_le] at hnear
    norm_num at hnear hlow hhigh
    obtain ⟨hzero, hdist⟩ := Plan.small_near halfTurn_isSettled le_rfl (pow_one _).symm
      (by linarith) (by norm_num; linarith) (by norm_num; linarith) (by norm_num) hsmall
    exact Or.inr ⟨hzero, Or.inl hdist⟩
  · have hturn' : (reduceAngle x).toReal ≤ 62831853071795864769252867665590 / 10 ^ 31 := by
      have hcast := (Rat.cast_le (K := ℝ)).mpr (reduceAngle_lt_fullTurn hx).le
      rw [toRat_fullTurn] at hcast
      push_cast at hcast
      exact hcast
    rw [abs_le] at hnear
    norm_num at hnear hlow hhigh hturn'
    obtain ⟨hzero, hdist⟩ := Plan.small_near fullTurn_isSettled le_rfl (pow_one _).symm
      (by linarith) (by norm_num; linarith) (by norm_num; linarith) (by norm_num) hsmall
    exact Or.inr ⟨hzero, Or.inr hdist⟩

/-- **Sums of the cosine near zero** are below the threshold; they are those at angles within twenty
units in the last digit of a quarter or three quarters of a turn. -/
theorem cosine_sum_small (hx : 0 ≤ x.toReal)
    (hsmall : |(alternatingSeries (reduceAngle x) 1 1).sum.toRat| < 103 / 10 ^ 32) :
    |(alternatingSeries (reduceAngle x) 1 1).sum.toRat| < 1 / 10 ^ 30 ∧
      (|(reduceAngle x).toRat - 15707963267948966192313216916398 / 10 ^ 31| ≤ 20 / 10 ^ 31 ∨
        |(reduceAngle x).toRat - 47123889803846898576939650749193 / 10 ^ 31| ≤ 20 / 10 ^ 31) := by
  obtain ⟨hangle, hturn, -⟩ := reduceAngle_spec hx
  obtain ⟨hlow, hhigh⟩ := pi_bounds
  have hpi := Real.pi_gt_three
  have hfirst : (1 : Decimal).toRat = (reduceAngle x).toRat ^ 0 := by simp
  have hsum := isNearSmallSum (Nat.zero_le 1) (by simp) hangle hturn (hasSum_circularTerm_zero _) hsmall
  rcases cosine_angle_cases hsum hangle hturn with hnear | hnear
  · rw [abs_le] at hnear
    norm_num at hnear hlow hhigh
    obtain ⟨hzero, hdist⟩ := Plan.small_near quarterTurn_isSettled (Nat.zero_le 1) hfirst
      (by linarith) (by norm_num; linarith) (by norm_num; linarith) (by norm_num) hsmall
    exact ⟨hzero, Or.inl hdist⟩
  · rw [abs_le] at hnear
    norm_num at hnear hlow hhigh
    obtain ⟨hzero, hdist⟩ := Plan.small_near threeQuarterTurn_isSettled (Nat.zero_le 1) hfirst
      (by linarith) (by norm_num; linarith) (by norm_num; linarith) (by norm_num) hsmall
    exact ⟨hzero, Or.inr hdist⟩

/-! ### Zeros of sine and cosine -/

/-- The cosine is zero where the sum of its series is below the threshold. -/
lemma cos_eq_zero_iff :
    (cos x).toRat = 0 ↔ |(alternatingSeries (reduceAngle x.abs) 1 1).sum.toRat| < 1 / 10 ^ 30 :=
  toRat_flush_eq_zero_iff

/-- The sine is zero where the sum of its series is below the threshold. -/
lemma sin_eq_zero_iff : (sin x).toRat = 0 ↔
    |(alternatingSeries (reduceAngle x.abs) (reduceAngle x.abs) 2).sum.toRat| < 1 / 10 ^ 30 := by
  rw [sin]
  split
  · rw [toRat_neg, neg_eq_zero]
    exact toRat_flush_eq_zero_iff
  · exact toRat_flush_eq_zero_iff

/-! ### Sums at very small angles -/

/-- **At very small angles** the sum is the first term, or hardly less. -/
theorem exists_sum_of_small {first : Decimal} {start : ℕ} (hx : |x.toRat| ≤ 1 / 10 ^ 20)
    (hfirst : 0 ≤ first.toRat) (hone : first.toRat ≤ 1) (hstart : 0 < start) :
    ∃ t : ℚ, 0 ≤ t ∧ t ≤ 1 / 10 ^ 40 ∧ (alternatingSeries x first start).sum.toRat = first.toRat - t := by
  have hpow : (1 : ℚ) / 10 ^ 40 = 10 ^ (-40 : ℤ) := by norm_num [zpow_neg]
  -- each of the three roundings stays below the same power of ten
  have hround : ∀ q : ℚ, 0 ≤ q → q ≤ 1 / 10 ^ 40 →
      0 ≤ roundSignificant workingDigits q ∧ roundSignificant workingDigits q ≤ 1 / 10 ^ 40 := by
    intro q hq hle
    have hlow := roundSignificant_mono workingDigits_pos hq
    rw [roundSignificant_zero] at hlow
    refine ⟨hlow, ?_⟩
    rcases hq.eq_or_lt with rfl | hpos
    · rw [roundSignificant_zero]
      positivity
    · rw [hpow] at hle ⊢
      exact roundSignificant_le workingDigits_pos hpos hle
  have hsquare := hround (x.toRat * x.toRat) (mul_self_nonneg _) (by
    rw [← abs_mul_abs_self]
    calc |x.toRat| * |x.toRat| ≤ 1 / 10 ^ 20 * (1 / 10 ^ 20) :=
          mul_le_mul hx hx (abs_nonneg _) (by positivity)
      _ = 1 / 10 ^ 40 := by norm_num)
  rw [← toRat_mul] at hsquare
  have hdivisor : (1 : ℚ) ≤ (start * (start + 1) : ℕ) := by
    exact_mod_cast Nat.one_le_iff_ne_zero.mpr (by positivity)
  have hquotient := hround ((x * x).toRat / (start * (start + 1) : ℕ))
    (div_nonneg hsquare.1 (by positivity)) ((div_le_self hsquare.1 hdivisor).trans hsquare.2)
  rw [← toRat_dividedBy] at hquotient
  have hterm := hround (first.toRat * ((x * x).dividedBy (start * (start + 1))).toRat)
    (mul_nonneg hfirst hquotient.1)
    ((mul_le_of_le_one_left hquotient.1 hone).trans hquotient.2)
  have hvalue : (first * -(x * x).dividedBy (start * (start + 1))).toRat =
      -roundSignificant workingDigits
        (first.toRat * ((x * x).dividedBy (start * (start + 1))).toRat) := by
    rw [toRat_mul, toRat_neg, mul_neg, roundSignificant_neg]
  refine ⟨_, hterm.1, hterm.2, ?_⟩
  have hsmall : (first * -(x * x).dividedBy (start * (start + 1))).abs < threshold := by
    rw [lt_iff, toRat_abs, toRat_threshold, hvalue, abs_neg, abs_of_nonneg hterm.1]
    exact hterm.2.trans_lt (by norm_num)
  have hsum : (alternatingSeries x first start).sum =
      first + first * -(x * x).dividedBy (start * (start + 1)) := Series.sum_eq_of_lt hsmall
  rw [hsum, toRat_add, hvalue, sub_eq_add_neg]

end DecimalCalculator.Elementary
