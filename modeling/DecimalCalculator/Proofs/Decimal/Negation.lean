import DecimalCalculator.Proofs.Decimal.Rounding

/-!
Opposite numbers.

* `Decimal.round_neg`, `Decimal.timesRounded_neg`, `Decimal.div_neg`: **rounding, products and
  quotients** take the sign along, and are the same otherwise, down to the mantissa and scale.
* `Decimal.powerLoop_neg`, `Decimal.power?_neg`: **integer powers** of the opposite number have the
  opposite sign if the exponent is odd, and are the same if it is even.
-/

namespace DecimalCalculator

/-- The nearest integer to a quotient takes the sign of the dividend along. -/
lemma divideHalfAway_neg (n : ℤ) {d : ℕ} (hd : 0 < d) :
    divideHalfAway (-n) d = -divideHalfAway n d := by
  rw [divideHalfAway_eq _ hd, divideHalfAway_eq _ hd, Int.sign_neg, Int.natAbs_neg, neg_mul]

namespace Decimal

variable {x y : Decimal}

/-! ### Operations -/

lemma neg_mk (m s : ℤ) : -(⟨m, s⟩ : Decimal) = ⟨-m, s⟩ := rfl

lemma neg_involutive (x : Decimal) : - -x = x := by
  rw [show -x = ⟨-x.mantissa, x.scale⟩ from rfl, neg_mk, Int.neg_neg]

/-- **Rounding** takes the sign along. -/
theorem round_neg (x : Decimal) (digits : ℕ) : (-x).round digits = -x.round digits := by
  rw [round, round, precision_neg]
  split
  · rfl
  · have hd : 0 < Nat.pow 10 (x.precision - digits) := Nat.pow_pos (by norm_num)
    simp only [show (-x).mantissa = -x.mantissa from rfl, show (-x).scale = x.scale from rfl,
      divideHalfAway_neg _ hd, Int.natAbs_neg, Int.neg_tdiv]
    split <;> rfl

/-- **A product** takes the sign of the second factor along. -/
theorem timesRounded_neg (x y : Decimal) (digits : ℕ) :
    x.timesRounded (-y) digits = -x.timesRounded y digits := by
  rw [timesRounded, timesRounded, ← round_neg, neg_mk (x.mantissa * y.mantissa), ← mul_neg]
  rfl

/-- A product takes the sign of the first factor along. -/
lemma neg_timesRounded (x y : Decimal) (digits : ℕ) :
    (-x).timesRounded y digits = -x.timesRounded y digits := by
  rw [timesRounded, timesRounded, ← round_neg, neg_mk (x.mantissa * y.mantissa), ← neg_mul]
  rfl

/-- **A quotient** takes the sign of the divisor along. -/
theorem div_neg (x y : Decimal) : x / -y = -(x / y) := by
  have hshift : x.quotientShift (-y) = x.quotientShift y := by
    rw [quotientShift, quotientShift, precision_neg]
  change quotient x (-y) = -quotient x y
  rw [quotient, quotient]
  split
  · rfl
  · dsimp only
    rw [hshift, ← round_neg, neg_mk (Int.tdiv _ _), ← Int.tdiv_neg]
    rfl

/-! ### Powers -/

/-- Repeated squaring takes the sign of the product along. -/
lemma powerLoop_neg_product (bound n : ℕ) (base product : Decimal) :
    powerLoop bound n base (-product) = -powerLoop bound n base product := by
  induction bound generalizing n base product with
  | zero => rfl
  | succ bound ih =>
    have hnext : (if n % 2 = 1 then (-product).timesRounded base powerDigits else -product) =
        -if n % 2 = 1 then product.timesRounded base powerDigits else product := by
      rw [neg_timesRounded]
      split <;> rfl
    rw [powerLoop, powerLoop, hnext]
    split
    · rfl
    · exact ih _ _ _

/-- **Repeated squaring** of the opposite base: only its lowest binary digit takes the base itself,
the others take its square. -/
theorem powerLoop_neg (bound n : ℕ) (base product : Decimal) :
    powerLoop (bound + 1) n (-base) product =
      if n % 2 = 1 then -powerLoop (bound + 1) n base product
      else powerLoop (bound + 1) n base product := by
  have hsquare : (-base).timesRounded (-base) powerDigits = base.timesRounded base powerDigits := by
    rw [timesRounded_neg, neg_timesRounded, neg_involutive]
  rw [powerLoop, powerLoop, hsquare, timesRounded_neg]
  by_cases hodd : n % 2 = 1
  · simp only [if_pos hodd, powerLoop_neg_product]
    split <;> rfl
  · simp only [if_neg hodd]

/-- **Integer powers** of the opposite number. -/
theorem power?_neg (x : Decimal) (n : ℤ) :
    (-x).power? n = (x.power? n).map fun v => if Odd n then -v else v := by
  have hzero : (-x).isZero = x.isZero := by
    simp only [isZero, show (-x).mantissa = -x.mantissa from rfl, neg_eq_zero]
  have hparity : n.natAbs % 2 = 1 ↔ Odd n := by rw [← Nat.odd_iff, Int.natAbs_odd]
  rw [power?, power?, hzero, magnitude_neg]
  split
  · next hn => simp [hn]
  · split
    · split
      · rw [Option.map_some]
        split <;> rfl
      · rfl
    · split
      · rfl
      · simp only [powerLoop_neg, hparity, Option.map_some]
        by_cases hodd : Odd n
        · simp only [if_pos hodd, div_neg, round_neg]
          split <;> rfl
        · simp only [if_neg hodd]

end Decimal

end DecimalCalculator
