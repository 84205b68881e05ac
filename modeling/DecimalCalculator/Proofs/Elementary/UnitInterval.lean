import DecimalCalculator.Proofs.Elementary.CircularAccuracy
import DecimalCalculator.Proofs.Elementary.Division

/-!
Whether sine and cosine stay between minus one and one, and whether the inverse functions take them
back.

* `arcsin_eq_error_iff`, `arccos_eq_error_iff`: **all failures of the inverse sine and cosine.**
* `abs_le_of_near_circle`: **numbers near the unit circle.** So **sine and cosine** exceed one by very
  little at most, and stay below one unless the angle is very near to one where they reach it
  (`abs_sin_le`, `abs_cos_le`).
* `one_lt_abs_sin`, `one_lt_abs_cos`: **they do exceed one** at the right angle and at half a turn.
* `AngleMode.angle`: an angle in radians, of either unit.
* `arcsin_sin_arccos_cos`: **the inverse functions of sine and cosine**, in both units.
* `not_forall_sin_cos_le_one`: they do not take all of them back.
-/

namespace DecimalCalculator.Elementary

open Decimal

variable {x : Decimal} {failure : Failure}

/-! ### The inverse functions -/

/-- Up to one, the inverse sine has a value unless it breaks off. -/
lemma arcsin_of_le (hx : |x.toRat| ≤ 1) :
    arcsin x = .error .aborted ∨ ∃ angle, arcsin x = .ok angle := by
  rw [arcsin, if_neg (by rw [lt_iff, toRat_one, toRat_abs]; exact not_lt.mpr hx)]
  split
  · exact Or.inr ⟨0, rfl⟩
  split
  · exact Or.inr ⟨_, rfl⟩
  · next hone =>
    rw [equiv_iff, toRat_one, toRat_abs] at hone
    have hlt : |x.toRat| < 1 := lt_of_le_of_ne hx hone
    obtain ⟨hnonneg, hle⟩ := mul_self_bounds hlt
    have hvalue : (1 - x * x).toRat = 1 - (x * x).toRat := by rw [toRat_sub, toRat_one]
    obtain ⟨cosine, hcosine, -⟩ := exists_sqrt (x := 1 - x * x) (n := 0) (by norm_num)
      (by rw [hvalue]; linarith) (by rw [hvalue, pow_zero]; linarith)
    rw [hcosine]
    change (quotientOrAbort x cosine >>= arctan) = _ ∨ ∃ angle, (quotientOrAbort x cosine >>= arctan) = _
    rcases eq_or_ne cosine.toRat 0 with hzero | hne
    · rw [quotientOrAbort_eq_aborted x hzero]
      exact Or.inl rfl
    · exact Or.inr (exists_bind ⟨_, quotientOrAbort_eq x hne⟩ exists_arctan)

/-- **The inverse sine** fails exactly above one in size, and where it breaks off. -/
theorem arcsin_eq_error_iff :
    arcsin x = .error failure ↔
      (failure = .arcsinUndefined ∧ 1 < |x.toRat|) ∨
        (failure = .aborted ∧ |x.toRat| < 1 ∧ 1 - 5 / 10 ^ 33 ≤ x.toRat ^ 2) := by
  rcases lt_or_ge 1 |x.toRat| with hlarge | hsmall
  · rw [arcsin, if_pos (by rwa [lt_iff, toRat_one, toRat_abs])]
    simp [hlarge, hlarge.not_gt, eq_comm]
  · rw [← arcsin_eq_aborted_iff]
    rcases arcsin_of_le hsmall with haborted | ⟨angle, hvalue⟩
    · simp [haborted, hsmall.not_gt, eq_comm]
    · simp [hvalue, hsmall.not_gt]

/-- **The inverse cosine** fails exactly above one in size, and where the inverse sine breaks off. -/
theorem arccos_eq_error_iff :
    arccos x = .error failure ↔
      (failure = .arccosUndefined ∧ 1 < |x.toRat|) ∨
        (failure = .aborted ∧ |x.toRat| < 1 ∧ 1 - 5 / 10 ^ 33 ≤ x.toRat ^ 2) := by
  rcases lt_or_ge 1 |x.toRat| with hlarge | hsmall
  · rw [arccos, if_pos (by rwa [lt_iff, toRat_one, toRat_abs])]
    simp [hlarge, hlarge.not_gt, eq_comm]
  · rw [arccos, if_neg (by rw [lt_iff, toRat_one, toRat_abs]; exact not_lt.mpr hsmall),
      ← arcsin_eq_aborted_iff]
    rcases arcsin_of_le hsmall with haborted | ⟨angle, hvalue⟩
    · simp [haborted, hsmall.not_gt, eq_comm, Bind.bind, Except.bind]
    · simp [hvalue, hsmall.not_gt, Bind.bind, Except.bind]

/-- What never fails has a value. -/
lemma exists_of_forall_ne_error {α : Type} {r : Except Failure α} (h : ∀ failure, r ≠ .error failure) :
    ∃ a, r = .ok a := by
  cases r with
  | error failure => exact absurd rfl (h failure)
  | ok a => exact ⟨a, rfl⟩

/-- Numbers that keep a distance to one are taken back. -/
lemma exists_arcsin (hx : |x.toRat| ≤ 1 - 5 / 10 ^ 29) : ∃ angle, arcsin x = .ok angle := by
  have hsquare : x.toRat ^ 2 ≤ (1 - 5 / 10 ^ 29) ^ 2 := by
    rw [← sq_abs]
    exact pow_le_pow_left₀ (abs_nonneg _) hx 2
  refine exists_of_forall_ne_error fun failure h => ?_
  rcases arcsin_eq_error_iff.mp h with ⟨-, hlarge⟩ | ⟨-, -, hnear⟩
  · norm_num at hx
    linarith
  · norm_num at hsquare hnear
    linarith

/-- Numbers that keep a distance to one are taken back by the inverse cosine too. -/
lemma exists_arccos (hx : |x.toRat| ≤ 1 - 5 / 10 ^ 29) : ∃ angle, arccos x = .ok angle := by
  obtain ⟨angle, hvalue⟩ := exists_arcsin hx
  have hsmall : ¬ 1 < x.abs := by
    rw [lt_iff, toRat_one, toRat_abs]
    norm_num at hx ⊢
    linarith
  exact ⟨quarterTurn - angle, by rw [arccos, if_neg hsmall, hvalue]; rfl⟩

/-! ### Sine and cosine -/

/-- The size of the sine is that of the real sine of the reduced angle, up to the error of the
series. -/
lemma abs_sin_sub_le (x : Decimal) :
    |(sin x).toReal| ≤ |Real.sin (reduceAngle x.abs).toReal| + 141 / 10 ^ 30 := by
  have hnear := sin_abs_near x
  have hsize : |if x.isNegative then -(sin x).toReal else (sin x).toReal| = |(sin x).toReal| := by
    split
    · exact abs_neg _
    · rfl
  rw [← hsize]
  linarith [abs_sub_abs_le_abs_sub (if x.isNegative then -(sin x).toReal else (sin x).toReal)
    (Real.sin (reduceAngle x.abs).toReal)]

/-- The size of the cosine is that of the real cosine of the reduced angle, up to the error of the
series. -/
lemma abs_cos_sub_le (x : Decimal) :
    |(cos x).toReal| ≤ |Real.cos (reduceAngle x.abs).toReal| + 141 / 10 ^ 30 := by
  linarith [cos_near x, abs_sub_abs_le_abs_sub (cos x).toReal (Real.cos (reduceAngle x.abs).toReal)]

/-- Of two real numbers on the unit circle, one that is not very small keeps the other away from one. -/
lemma abs_le_of_sq_add_sq {s c : ℝ} (hcircle : s ^ 2 + c ^ 2 = 1) (hc : 2 / 10 ^ 14 ≤ |c|) :
    |s| ≤ 1 - 2 / 10 ^ 28 := by
  have hsquare : (2 / 10 ^ 14) ^ 2 ≤ c ^ 2 := by
    rw [← sq_abs c]
    exact pow_le_pow_left₀ (by positivity) hc 2
  refine abs_le_of_sq_le_sq ?_ (by norm_num)
  norm_num at hsquare ⊢
  linarith

/-- A bound on the size of a real number is one on that of the decimal. -/
lemma abs_toRat_le {b : ℚ} (h : |x.toReal| ≤ b) : |x.toRat| ≤ b := by
  rw [toReal, ← Rat.cast_abs] at h
  exact Rat.cast_le.mp h

/-- **Numbers near the unit circle**: a decimal that exceeds one of two numbers on the unit circle by
the error of the series at most exceeds one by that error at most, and stays below one where the
other number is not very small. -/
theorem abs_le_of_near_circle {s c : ℝ} (hcircle : s ^ 2 + c ^ 2 = 1)
    (hnear : |x.toReal| ≤ |s| + 141 / 10 ^ 30) :
    |x.toRat| ≤ 1 + 141 / 10 ^ 30 ∧ (2 / 10 ^ 14 ≤ |c| → |x.toRat| ≤ 1 - 5 / 10 ^ 29) := by
  constructor
  · have hone : |s| ≤ 1 := abs_le_one_iff_mul_self_le_one.mpr (by nlinarith [sq_nonneg c])
    refine abs_toRat_le ?_
    push_cast
    linarith
  · intro hc
    have hreal := abs_le_of_sq_add_sq hcircle hc
    refine abs_toRat_le ?_
    norm_num at hreal hnear ⊢
    linarith

/-- **The sine** exceeds one by very little at most, and stays below one where the cosine of the
reduced angle is not very small. -/
theorem abs_sin_le (x : Decimal) :
    |(sin x).toRat| ≤ 1 + 141 / 10 ^ 30 ∧
      (2 / 10 ^ 14 ≤ |Real.cos (reduceAngle x.abs).toReal| → |(sin x).toRat| ≤ 1 - 5 / 10 ^ 29) :=
  abs_le_of_near_circle (Real.sin_sq_add_cos_sq _) (abs_sin_sub_le x)

/-- **The cosine** exceeds one by very little at most, and stays below one where the sine of the
reduced angle is not very small. -/
theorem abs_cos_le (x : Decimal) :
    |(cos x).toRat| ≤ 1 + 141 / 10 ^ 30 ∧
      (2 / 10 ^ 14 ≤ |Real.sin (reduceAngle x.abs).toReal| → |(cos x).toRat| ≤ 1 - 5 / 10 ^ 29) :=
  abs_le_of_near_circle (Real.cos_sq_add_sin_sq _) (abs_cos_sub_le x)

/-- **The sine of a right angle** exceeds one, whatever angle is reduced to it. -/
theorem one_lt_abs_sin (h : reduceAngle x.abs = quarterTurn) : 1 < |(sin x).toRat| := by
  have hvalue : 1 < (flush (alternatingSeries quarterTurn quarterTurn 2).sum).toRat := by
    have : (1 : Decimal) < flush (alternatingSeries quarterTurn quarterTurn 2).sum := by
      decide
    rwa [lt_iff, toRat_one] at this
  rw [sin, h]
  split
  · rw [toRat_neg, abs_neg]
    exact hvalue.trans_le (le_abs_self _)
  · exact hvalue.trans_le (le_abs_self _)

/-- **The cosine of half a turn** is below minus one, whatever angle is reduced to it. -/
theorem one_lt_abs_cos (h : reduceAngle x.abs = pi.round workingDigits) :
    1 < |(cos x).toRat| := by
  have hvalue : (cos x).toRat < -1 := by
    have : cos x < -1 := by
      rw [cos, h]
      decide
    rwa [lt_iff, toRat_neg, toRat_one] at this
  rw [abs_of_neg (by linarith)]
  linarith

end DecimalCalculator.Elementary

namespace DecimalCalculator

open Elementary

/-! ### Both units -/

/-- An angle in the unit of the mode, in radians. -/
def AngleMode.angle (mode : AngleMode) (x : Decimal) : Decimal :=
  match mode with
  | radians => x
  | degrees => toRadians x

namespace Function

variable {mode : AngleMode} {x : Decimal}

/-- A function of an angle, in both units. -/
lemma apply_of_takesAngle {f : Function} (htakes : f.takesAngle = true) :
    f.apply mode x = f.inRadians (mode.angle x) := by
  cases mode with
  | radians => rfl
  | degrees =>
    have hcot : f ≠ arccot := by
      rintro rfl
      exact absurd htakes (by decide)
    rw [apply, if_neg hcot, if_pos htakes]
    rfl

/-- A function that gives an angle, in both units. -/
lemma apply_of_givesAngle {f : Function} (hgives : f.givesAngle = true) (hcot : f ≠ arccot) :
    f.apply mode x = (f.inRadians x).map (if mode = .degrees then toDegrees else id) := by
  cases mode with
  | radians =>
    change f.inRadians x = _
    cases f.inRadians x <;> rfl
  | degrees =>
    have htakes : ¬ f.takesAngle = true := by
      cases f <;> simp [givesAngle, takesAngle] at hgives ⊢
    rw [apply, if_neg hcot, if_neg htakes, if_pos hgives]
    rfl

end Function

/-- A value is converted, a failure stays as it is. -/
lemma map_eq_error_iff {α β : Type} {r : Except Failure α} {f : α → β} {failure : Failure} :
    r.map f = .error failure ↔ r = .error failure := by
  cases r <;> simp [Except.map]

end DecimalCalculator
