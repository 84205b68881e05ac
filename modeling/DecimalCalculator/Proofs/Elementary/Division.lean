import DecimalCalculator.Expression.Operation
import DecimalCalculator.Proofs.Elementary.SquareRootAccuracy

/-!
Which elementary functions break off because a divisor is zero.

* `mul_self_eq_one_iff`, `mul_self_le`: **the square of a number below one** is rounded to one if it
  is within half a unit of it in the last digit, and keeps a distance of one unit otherwise.
* `sqrt_cosine_isZero_iff`: so the cosine by which the inverse sine divides is zero for such numbers
  only.
* `arcsin_eq_aborted_iff`, `arccos_eq_aborted_iff`: **the inverse sine and cosine break off** there.
  `arcsec_ne_aborted` and so on: the other functions never do. `exists_arctan`: **the inverse
  tangent** has a value everywhere.
* `breaksOff_iff`: **divisions by zero** of all functions together.
* `not_forall_apply_ne_aborted`: there are some.
-/

namespace DecimalCalculator.Elementary

open Decimal

variable {x : Decimal}

/-! ### Squares near one -/

/-- A square below one in size: its value before it is rounded, and its last kept place. -/
lemma place_square_le (hx : x.toRat ≠ 0) (hlt : |x.toRat| < 1) :
    (⟨x.mantissa * x.mantissa, x.scale + x.scale⟩ : Decimal).place workingDigits ≤ 1 / 10 ^ 32 := by
  set square : Decimal := ⟨x.mantissa * x.mantissa, x.scale + x.scale⟩ with hsquare
  have hvalue : square.toRat = x.toRat * x.toRat := toRat_product x x
  have hone : |square.toRat| < 1 := by
    rw [hvalue, abs_mul]
    exact mul_lt_one_of_nonneg_of_lt_one_left (abs_nonneg _) hlt hlt.le
  have hmagnitude : square.magnitude < 0 := by
    have hsize := zpow_magnitude_le (x := square) (by rw [hvalue]; exact mul_ne_zero hx hx)
    by_contra hnonneg
    have : (1 : ℚ) ≤ 10 ^ square.magnitude := one_le_zpow₀ (by norm_num) (not_lt.mp hnonneg)
    linarith
  have hexponent : square.magnitude + 1 - workingDigits ≤ -32 := by
    rw [workingDigits]
    omega
  calc square.place workingDigits = 10 ^ (square.magnitude + 1 - workingDigits) := rfl
    _ ≤ 10 ^ (-32 : ℤ) := zpow_le_zpow_right₀ (by norm_num) hexponent
    _ = 1 / 10 ^ 32 := by norm_num [zpow_neg]

/-- The square of a number below one in size is not above one after rounding. -/
lemma mul_self_bounds (hlt : |x.toRat| < 1) : 0 ≤ (x * x).toRat ∧ (x * x).toRat ≤ 1 := by
  have hproduct : 0 ≤ x.toRat * x.toRat := mul_self_nonneg _
  constructor
  · exact nonneg_of_abs_sub_le hproduct (abs_mul_sub_le x x)
  · have hone : x.toRat * x.toRat ≤ (10 : ℚ) ^ (0 : ℤ) := by
      rw [zpow_zero, ← abs_mul_abs_self]
      exact mul_le_one₀ hlt.le (abs_nonneg _) hlt.le
    have := timesRounded_le workingDigits_pos hproduct hone
    rwa [zpow_zero] at this

/-- **Squares below one**: one that is not rounded to one keeps a distance of one unit in the last
digit. -/
theorem mul_self_le (hlt : |x.toRat| < 1) (hne : (x * x).toRat ≠ 1) :
    (x * x).toRat ≤ 1 - 1 / 10 ^ 32 :=
  le_one_sub (precision_round_le workingDigits_pos _) (lt_of_le_of_ne (mul_self_bounds hlt).2 hne)

/-- **Squares near one**: the square of a number below one is rounded to one if and only if it is at
most half a unit in the last digit below it. -/
theorem mul_self_eq_one_iff (hlt : |x.toRat| < 1) :
    (x * x).toRat = 1 ↔ 1 - 5 / 10 ^ 33 ≤ x.toRat ^ 2 := by
  have hproduct : 0 ≤ x.toRat * x.toRat := mul_self_nonneg _
  have hsquare := toRat_product x x
  have hround_le := round_le_add workingDigits_pos
    (show 0 ≤ (⟨x.mantissa * x.mantissa, x.scale + x.scale⟩ : Decimal).toRat by rwa [hsquare])
  have hlt_round := lt_round_add workingDigits_pos
    (show 0 ≤ (⟨x.mantissa * x.mantissa, x.scale + x.scale⟩ : Decimal).toRat by rwa [hsquare])
  rw [hsquare] at hround_le hlt_round
  change (x * x).toRat ≤ _ at hround_le
  change _ < (x * x).toRat + _ at hlt_round
  rw [pow_two]
  constructor
  · intro hone
    have hne : x.toRat ≠ 0 := by
      intro hzero
      have := (bounds_of_abs_sub_le hproduct (abs_mul_sub_le x x)).2
      rw [hzero, hone] at this
      norm_num at this
    have hplace := place_square_le hne hlt
    norm_num at hplace ⊢
    linarith
  · intro hnear
    have hne : x.toRat ≠ 0 := by
      rintro hzero
      rw [hzero] at hnear
      norm_num at hnear
    have hplace := place_square_le hne hlt
    by_contra hother
    have hle := mul_self_le hlt hother
    norm_num at hplace hnear hle
    linarith

/-- The square root of zero. -/
lemma sqrt_of_toRat_eq_zero (h : x.toRat = 0) : sqrt x = .ok 0 := by
  have hnegative : ¬ x.isNegative = true := by
    rw [isNegative_iff, h]
    exact lt_irrefl 0
  rw [sqrt, if_neg hnegative, if_pos ((isZero_iff x).mpr h)]

/-- **The cosine of the inverse sine** is zero if and only if the square of the sine is at most half
a unit in the last digit below one. -/
theorem sqrt_cosine_isZero_iff {cosine : Decimal} (hlt : |x.toRat| < 1)
    (h : sqrt (1 - x * x) = .ok cosine) :
    cosine.isZero = true ↔ 1 - 5 / 10 ^ 33 ≤ x.toRat ^ 2 := by
  have hvalue : (1 - x * x).toRat = 1 - (x * x).toRat := by rw [toRat_sub, toRat_one]
  obtain ⟨hnonneg, hle⟩ := mul_self_bounds hlt
  rw [← mul_self_eq_one_iff hlt, isZero_iff]
  constructor
  · intro hzero
    by_contra hne
    have hfar := mul_self_le hlt hne
    exact sqrt_ne_zero (by rw [hvalue]; linarith) (by rw [hvalue]; linarith) h hzero
  · intro hone
    have hzero : (1 - x * x).toRat = 0 := by rw [hvalue, hone, sub_self]
    rw [sqrt_of_toRat_eq_zero hzero] at h
    rw [← Except.ok.inj h, toRat_zero]

/-! ### Quotients -/

section Quotients

variable {α β : Type} {y : Decimal}

/-- What has come to a value has not broken off. -/
lemma ok_ne_aborted (a : α) : (Except.ok a : Except Failure α) ≠ .error .aborted := by simp

/-- A computation breaks off only where one of its steps does. -/
lemma bind_ne_aborted {r : Except Failure α} {next : α → Except Failure β}
    (hr : r ≠ .error .aborted) (hnext : ∀ a, r = .ok a → next a ≠ .error .aborted) :
    (r >>= next) ≠ .error .aborted := by
  cases r with
  | error f =>
    intro h
    exact hr (by rw [Except.error.inj h])
  | ok a => exact hnext a rfl

/-- A computation has a value where all its steps have. -/
lemma exists_bind {r : Except Failure α} {next : α → Except Failure β}
    (hr : ∃ a, r = .ok a) (hnext : ∀ a, ∃ b, next a = .ok b) : ∃ b, (r >>= next) = .ok b := by
  obtain ⟨a, rfl⟩ := hr
  exact hnext a

/-- A quotient whose failure has a name of its own does not break off. -/
lemma quotientOr_ne_aborted {undefined : Failure} (h : undefined ≠ .aborted) (x y : Decimal) :
    quotientOr undefined x y ≠ .error .aborted := by
  rw [quotientOr]
  split
  · simp
  · intro heq
    exact h (Except.error.inj heq)

/-- A quotient by another number than zero does not break off. -/
lemma quotientOrAbort_eq (x : Decimal) (hy : y.toRat ≠ 0) : quotientOrAbort x y = .ok (x / y) := by
  rw [quotientOrAbort, quotientOr, quotient?, (isZero_eq_false_iff y).mpr hy]
  rfl

/-- A quotient by zero breaks off. -/
lemma quotientOrAbort_eq_aborted (x : Decimal) (hy : y.toRat = 0) :
    quotientOrAbort x y = .error .aborted := by
  rw [quotientOrAbort, quotientOr, quotient?, (isZero_iff y).mpr hy]
  rfl

lemma quotientOrAbort_ne_aborted (x : Decimal) (hy : y.toRat ≠ 0) :
    quotientOrAbort x y ≠ .error .aborted := by
  rw [quotientOrAbort_eq x hy]
  simp

end Quotients

/-! ### Exponentials and logarithms -/

lemma exp_ne_aborted (x : Decimal) : exp x ≠ .error .aborted := by
  rcases le_or_gt (2 ^ 31) x.toRat with hlarge | hbelow
  · rw [exp_of_le hlarge]
    simp
  · obtain ⟨r, hvalue, -⟩ := exp_near hbelow
    simp [hvalue]

lemma ln_ne_aborted (x : Decimal) : ln x ≠ .error .aborted := by
  rw [ln]
  split
  · simp
  · split <;> simp

lemma sqrt_ne_aborted (x : Decimal) : sqrt x ≠ .error .aborted := by
  rw [sqrt]
  split
  · simp
  · split
    · simp
    · exact bind_ne_aborted (ln_ne_aborted x) fun l _ => exp_ne_aborted _

/-- **Powers** never break off. -/
theorem pow_ne_aborted (base exponent : Decimal) : pow base exponent ≠ .error .aborted := by
  rw [pow]
  split
  · simp
  · split
    · exact bind_ne_aborted (ln_ne_aborted base) fun l _ => exp_ne_aborted _
    · split
      · split <;> simp
      · split
        · simp
        · refine bind_ne_aborted (ln_ne_aborted base.abs) fun l _ => ?_
          exact bind_ne_aborted (exp_ne_aborted _) fun size _ => by simp

/-! ### Circular functions -/

lemma tan_ne_aborted (x : Decimal) : tan x ≠ .error .aborted := by
  rw [tan]
  exact quotientOr_ne_aborted (by simp) _ _

lemma sec_ne_aborted (x : Decimal) : sec x ≠ .error .aborted := by
  rw [sec]
  exact quotientOr_ne_aborted (by simp) _ _

lemma csc_ne_aborted (x : Decimal) : csc x ≠ .error .aborted := by
  rw [csc]
  exact quotientOr_ne_aborted (by simp) _ _

lemma cot_ne_aborted (x : Decimal) : cot x ≠ .error .aborted := by
  rw [cot]
  exact quotientOr_ne_aborted (by simp) _ _

/-! ### Inverse circular functions -/

/-- The quotient that turns an argument above the bound back by a twelfth of a turn: both summands
of its divisor are positive. -/
lemma exists_rotation {size : Decimal} (hlarge : decide (arctanBound < size) = true) :
    ∃ rotated, quotientOrAbort (rootThree * size - 1) (rootThree + size) = .ok rotated := by
  have hbound : 0 < arctanBound.toRat := by norm_num [arctanBound, toRat]
  have hroot : 0 < rootThree.toRat := by norm_num [rootThree, toRat]
  rw [decide_eq_true_eq, lt_iff] at hlarge
  refine ⟨_, quotientOrAbort_eq _ ?_⟩
  rw [toRat_add]
  linarith

/-- **The inverse tangent** has a value everywhere. -/
theorem exists_arctan (x : Decimal) : ∃ angle, arctan x = .ok angle := by
  rw [arctan]
  split
  · exact ⟨0, rfl⟩
  · dsimp only
    split
    · next hlarge =>
      rw [decide_eq_true_eq, lt_iff, toRat_one] at hlarge
      have hne : x.abs.toRat ≠ 0 := by linarith
      refine exists_bind ⟨_, quotientOrAbort_eq 1 hne⟩ fun size => ?_
      split
      · next hrotated => exact exists_bind (exists_rotation hrotated) fun _ => ⟨_, rfl⟩
      · exact ⟨_, rfl⟩
    · refine exists_bind ⟨_, rfl⟩ fun size => ?_
      split
      · next hrotated => exact exists_bind (exists_rotation hrotated) fun _ => ⟨_, rfl⟩
      · exact ⟨_, rfl⟩

/-- The inverse tangent never breaks off. -/
lemma arctan_ne_aborted (x : Decimal) : arctan x ≠ .error .aborted := by
  obtain ⟨angle, hvalue⟩ := exists_arctan x
  simp [hvalue]

/-- The quotient of a number below one in size by its cosine breaks off if and only if the square of
the number is below one by at most half a unit in the last digit. -/
lemma arctan_quotient_eq_aborted_iff {x : Decimal} (hlt : |x.toRat| < 1) :
    (do
      let cosine ← sqrt (1 - x * x)
      arctan (← quotientOrAbort x cosine)) = .error .aborted ↔ 1 - 5 / 10 ^ 33 ≤ x.toRat ^ 2 := by
  cases hcosine : sqrt (1 - x * x) with
  | error f =>
    have hf : f ≠ .aborted := by
      rintro rfl
      exact sqrt_ne_aborted _ hcosine
    -- the cosine of a number so near to one is found
    have hfar : ¬ 1 - 5 / 10 ^ 33 ≤ x.toRat ^ 2 := by
      intro hnear
      have hvalue : (1 - x * x).toRat = 0 := by
        rw [toRat_sub, toRat_one, (mul_self_eq_one_iff hlt).mpr hnear, sub_self]
      rw [sqrt_of_toRat_eq_zero hvalue] at hcosine
      exact absurd hcosine (by simp)
    exact iff_of_false (fun h => hf (Except.error.inj h)) hfar
  | ok cosine =>
    have hiff := sqrt_cosine_isZero_iff hlt hcosine
    change (quotientOrAbort x cosine >>= arctan) = _ ↔ _
    by_cases hcos : cosine.isZero = true
    · rw [quotientOrAbort_eq_aborted x ((isZero_iff _).mp hcos)]
      exact iff_of_true rfl (hiff.mp hcos)
    · have hne : cosine.toRat ≠ 0 := fun h => hcos ((isZero_iff _).mpr h)
      rw [quotientOrAbort_eq x hne]
      exact iff_of_false (arctan_ne_aborted _) fun h => hcos (hiff.mpr h)

/-- **The inverse sine** breaks off if and only if the square of the argument is below one by at
most half a unit in the last digit. -/
theorem arcsin_eq_aborted_iff (x : Decimal) :
    arcsin x = .error .aborted ↔ |x.toRat| < 1 ∧ 1 - 5 / 10 ^ 33 ≤ x.toRat ^ 2 := by
  rw [arcsin]
  by_cases hlarge : 1 < x.abs
  · rw [if_pos hlarge]
    rw [lt_iff, toRat_one, toRat_abs] at hlarge
    simp only [Except.error.injEq, reduceCtorEq, false_iff, not_and]
    intro hlt
    linarith
  rw [if_neg hlarge]
  by_cases hzero : x.isZero = true
  · rw [if_pos hzero, (isZero_iff x).mp hzero]
    constructor
    · intro h
      cases h
    · intro h
      norm_num at h
  rw [if_neg hzero]
  by_cases hone : x.abs ≈ 1
  · rw [if_pos hone]
    rw [equiv_iff, toRat_one, toRat_abs] at hone
    simp [hone]
  rw [if_neg hone]
  rw [equiv_iff, toRat_one, toRat_abs] at hone
  rw [lt_iff, toRat_one, toRat_abs] at hlarge
  have hlt : |x.toRat| < 1 := lt_of_le_of_ne (not_lt.mp hlarge) hone
  rw [arctan_quotient_eq_aborted_iff hlt]
  exact (and_iff_right hlt).symm

/-- **The inverse cosine** breaks off where the inverse sine does. -/
theorem arccos_eq_aborted_iff (x : Decimal) :
    arccos x = .error .aborted ↔ |x.toRat| < 1 ∧ 1 - 5 / 10 ^ 33 ≤ x.toRat ^ 2 := by
  rw [← arcsin_eq_aborted_iff, arccos]
  split
  · next hlarge =>
    rw [arcsin, if_pos hlarge]
    simp
  · cases arcsin x with
    | error f => exact Iff.rfl
    | ok angle => simp [Bind.bind, Except.bind]

/-- The reciprocal of a number of size at least one is not so near to one that its square would be
rounded to one. -/
lemma reciprocal_far (hlt : |(1 / x).toRat| < 1) :
    ¬ 1 - 5 / 10 ^ 33 ≤ (1 / x).toRat ^ 2 := by
  have hprecision : (1 / x).abs.precision ≤ workingDigits := by
    have hsame : (1 / x).abs.precision = (1 / x).precision :=
      congrArg digitCount (Int.natAbs_natCast _)
    rw [hsame]
    exact precision_div_le 1 x
  have hle := le_one_sub hprecision (by rwa [toRat_abs])
  rw [toRat_abs, workingDigits] at hle
  rw [not_le]
  calc (1 / x).toRat ^ 2 = |(1 / x).toRat| ^ 2 := (sq_abs _).symm
    _ ≤ (1 - 1 / 10 ^ 32) ^ 2 := pow_le_pow_left₀ (abs_nonneg _) hle 2
    _ < 1 - 5 / 10 ^ 33 := by norm_num

/-- A number that is not below one in size is not zero. -/
lemma toRat_ne_zero_of_not_lt (h : ¬ x.abs < 1) : x.toRat ≠ 0 := by
  rw [lt_iff, toRat_abs, toRat_one, not_lt] at h
  exact abs_pos.mp (by linarith)

/-- **The inverse secant** never breaks off. -/
theorem arcsec_ne_aborted (x : Decimal) : arcsec x ≠ .error .aborted := by
  rw [arcsec]
  split
  · simp
  · next hsize =>
    have hne := toRat_ne_zero_of_not_lt hsize
    rw [quotientOrAbort_eq 1 hne]
    intro h
    obtain ⟨hlt, hnear⟩ := (arccos_eq_aborted_iff _).mp h
    exact reciprocal_far hlt hnear

/-- **The inverse cosecant** never breaks off. -/
theorem arccsc_ne_aborted (x : Decimal) : arccsc x ≠ .error .aborted := by
  rw [arccsc]
  split
  · simp
  · next hsize =>
    have hne := toRat_ne_zero_of_not_lt hsize
    rw [quotientOrAbort_eq 1 hne]
    intro h
    obtain ⟨hlt, hnear⟩ := (arcsin_eq_aborted_iff _).mp h
    exact reciprocal_far hlt hnear

/-- **The inverse cotangent** never breaks off. -/
theorem arccot_ne_aborted (x : Decimal) : arccot x ≠ .error .aborted := by
  rw [arccot]
  split
  · simp
  · next hzero =>
    have hne : x.toRat ≠ 0 := fun h => hzero ((isZero_iff x).mpr h)
    rw [quotientOrAbort_eq 1 hne]
    exact arctan_ne_aborted _

/-- The inverse cotangent in degrees never breaks off either. -/
lemma arccotDegrees_ne_aborted (x : Decimal) : arccotDegrees x ≠ .error .aborted := by
  rw [arccotDegrees]
  split
  · simp
  · cases hvalue : arccot x with
    | error f =>
      intro h
      have hf : f = .aborted := Except.error.inj h
      rw [hf] at hvalue
      exact arccot_ne_aborted x hvalue
    | ok angle => simp [Except.map]

/-! ### Hyperbolic functions -/

lemma exponentials_ne_aborted (x : Decimal) : exponentials x ≠ .error .aborted := by
  refine bind_ne_aborted (exp_ne_aborted x) fun growing _ => ?_
  exact bind_ne_aborted (quotientOr_ne_aborted (by simp) _ _) fun falling _ => by simp

lemma sinh_ne_aborted (x : Decimal) : sinh x ≠ .error .aborted :=
  bind_ne_aborted (exponentials_ne_aborted x) fun _ _ => by simp

lemma cosh_ne_aborted (x : Decimal) : cosh x ≠ .error .aborted :=
  bind_ne_aborted (exponentials_ne_aborted x) fun _ _ => by simp

lemma tanh_ne_aborted (x : Decimal) : tanh x ≠ .error .aborted :=
  bind_ne_aborted (exponentials_ne_aborted x) fun _ _ => quotientOr_ne_aborted (by simp) _ _

lemma sech_ne_aborted (x : Decimal) : sech x ≠ .error .aborted :=
  bind_ne_aborted (cosh_ne_aborted x) fun _ _ => quotientOr_ne_aborted (by simp) _ _

lemma csch_ne_aborted (x : Decimal) : csch x ≠ .error .aborted := by
  rw [csch]
  split
  · simp
  · exact bind_ne_aborted (sinh_ne_aborted x) fun _ _ => quotientOr_ne_aborted (by simp) _ _

lemma coth_ne_aborted (x : Decimal) : coth x ≠ .error .aborted := by
  rw [coth]
  split
  · simp
  · refine bind_ne_aborted (exponentials_ne_aborted x) fun _ _ => ?_
    exact quotientOr_ne_aborted (by simp) _ _

lemma arcsinh_ne_aborted (x : Decimal) : arcsinh x ≠ .error .aborted :=
  bind_ne_aborted (sqrt_ne_aborted _) fun _ _ => ln_ne_aborted _

lemma arccosh_ne_aborted (x : Decimal) : arccosh x ≠ .error .aborted := by
  rw [arccosh]
  split
  · simp
  · exact bind_ne_aborted (sqrt_ne_aborted _) fun _ _ => ln_ne_aborted _

/-- **The inverse hyperbolic tangent** never breaks off: differences are exact, so that one less an
argument below one is not zero. -/
theorem arctanh_ne_aborted (x : Decimal) : arctanh x ≠ .error .aborted := by
  rw [arctanh]
  split
  · simp
  · next hsmall =>
    rw [le_iff, toRat_one, toRat_abs, not_le, abs_lt] at hsmall
    have hne : (1 - x).toRat ≠ 0 := by
      rw [toRat_sub, toRat_one]
      linarith
    refine bind_ne_aborted (quotientOrAbort_ne_aborted _ hne) fun ratio _ => ?_
    exact bind_ne_aborted (ln_ne_aborted _) fun logarithm _ => by simp

lemma arcsech_ne_aborted (x : Decimal) : arcsech x ≠ .error .aborted := by
  rw [arcsech]
  split
  · simp
  · next hdomain =>
    rw [Bool.or_eq_true, not_or, Bool.not_eq_true', Bool.not_eq_false, isPositive_iff] at hdomain
    rw [quotientOrAbort_eq 1 hdomain.1.ne']
    exact arccosh_ne_aborted _

lemma arccsch_ne_aborted (x : Decimal) : arccsch x ≠ .error .aborted := by
  rw [arccsch]
  split
  · simp
  · next hzero =>
    rw [quotientOrAbort_eq 1 fun h => hzero ((isZero_iff x).mpr h)]
    exact arcsinh_ne_aborted _

lemma arccoth_ne_aborted (x : Decimal) : arccoth x ≠ .error .aborted := by
  rw [arccoth]
  split
  · simp
  · next hlarge =>
    rw [le_iff, toRat_one, toRat_abs, not_le] at hlarge
    rw [quotientOrAbort_eq 1 (abs_pos.mp (by linarith))]
    exact arctanh_ne_aborted _

/-! ### All functions -/

/-- The divisors of the elementary functions that do not depend on the argument: `e` in the reduction
of a logarithm, the divisor of the lower end of its interval, a full turn, one degree, the whole
numbers by which constants and sums of exponentials are divided, and those by which the terms of the
series are. -/
inductive IsFixedDivisor : Decimal → Prop
  | base : IsFixedDivisor e
  | interval : IsFixedDivisor (e + 1)
  | turn : IsFixedDivisor fullTurn
  | degree : IsFixedDivisor Elementary.degree
  | whole {n : ℕ} (h : n ∈ [2, 6, 180]) : IsFixedDivisor (ofInt n)
  | expTerm (k : ℕ) : IsFixedDivisor (ofInt (k + 1 : ℕ))
  | lnTerm (k : ℕ) : IsFixedDivisor (ofInt (k + 2 : ℕ))
  | arctanTerm (k : ℕ) : IsFixedDivisor (ofInt (2 * k + 3 : ℕ))
  | sinTerm (k : ℕ) : IsFixedDivisor (ofInt ((2 + 2 * k) * (2 + 2 * k + 1) : ℕ))
  | cosTerm (k : ℕ) : IsFixedDivisor (ofInt ((1 + 2 * k) * (1 + 2 * k + 1) : ℕ))

/-- A positive whole number is not zero. -/
lemma isZero_ofInt_eq_false {n : ℕ} (h : 0 < n) : (ofInt n).isZero = false := by
  rw [isZero_eq_false_iff, toRat_ofInt]
  exact_mod_cast h.ne'

/-- No fixed divisor is zero. -/
lemma IsFixedDivisor.isZero_eq_false {d : Decimal} (h : IsFixedDivisor d) : d.isZero = false := by
  cases h with
  | base | interval | turn | degree => decide
  | whole h =>
    refine isZero_ofInt_eq_false ?_
    simp only [List.mem_cons, List.not_mem_nil, or_false] at h
    omega
  | expTerm k | lnTerm k | arctanTerm k => exact isZero_ofInt_eq_false (by omega)
  | sinTerm k | cosTerm k => exact isZero_ofInt_eq_false (by positivity)

end DecimalCalculator.Elementary

namespace DecimalCalculator

/-- In radians all functions but the inverse sine and cosine never break off. -/
lemma Function.inRadians_ne_aborted {f : Function} (hsin : f ≠ .arcsin) (hcos : f ≠ .arccos)
    (x : Decimal) : f.inRadians x ≠ .error .aborted := by
  open Elementary in
  cases f with
  | arcsin => exact absurd rfl hsin
  | arccos => exact absurd rfl hcos
  | sin | cos | abs => exact ok_ne_aborted _
  | tan => exact tan_ne_aborted x
  | sec => exact sec_ne_aborted x
  | csc => exact csc_ne_aborted x
  | cot => exact cot_ne_aborted x
  | exp => exact exp_ne_aborted x
  | ln => exact ln_ne_aborted x
  | arctan => exact arctan_ne_aborted x
  | arcsec => exact arcsec_ne_aborted x
  | arccsc => exact arccsc_ne_aborted x
  | arccot => exact arccot_ne_aborted x
  | sinh => exact sinh_ne_aborted x
  | cosh => exact cosh_ne_aborted x
  | tanh => exact tanh_ne_aborted x
  | sech => exact sech_ne_aborted x
  | csch => exact csch_ne_aborted x
  | coth => exact coth_ne_aborted x
  | arcsinh => exact arcsinh_ne_aborted x
  | arccosh => exact arccosh_ne_aborted x
  | arctanh => exact arctanh_ne_aborted x
  | arcsech => exact arcsech_ne_aborted x
  | arccsch => exact arccsch_ne_aborted x
  | arccoth => exact arccoth_ne_aborted x
  | sqrt => exact sqrt_ne_aborted x

/-- In radians only the inverse sine and cosine break off. -/
lemma Function.inRadians_eq_aborted_iff (f : Function) (x : Decimal) :
    f.inRadians x = .error .aborted ↔
      (f = .arcsin ∨ f = .arccos) ∧ |x.toRat| < 1 ∧ 1 - 5 / 10 ^ 33 ≤ x.toRat ^ 2 := by
  by_cases hsin : f = .arcsin
  · subst hsin
    rw [← Elementary.arcsin_eq_aborted_iff]
    simp [inRadians]
  by_cases hcos : f = .arccos
  · subst hcos
    rw [← Elementary.arccos_eq_aborted_iff]
    simp [inRadians]
  · have hne := inRadians_ne_aborted hsin hcos x
    exact ⟨fun h => absurd h hne, fun h => absurd h.1 (not_or.mpr ⟨hsin, hcos⟩)⟩

/-- In degrees too only the inverse sine and cosine break off. -/
lemma Function.apply_eq_aborted_iff (f : Function) (mode : AngleMode) (x : Decimal) :
    f.apply mode x = .error .aborted ↔
      (f = .arcsin ∨ f = .arccos) ∧ |x.toRat| < 1 ∧ 1 - 5 / 10 ^ 33 ≤ x.toRat ^ 2 := by
  cases mode with
  | radians => exact f.inRadians_eq_aborted_iff x
  | degrees =>
    rw [apply]
    split
    · next hcot =>
      subst hcot
      exact ⟨fun h => absurd h (Elementary.arccotDegrees_ne_aborted x), fun h => by simp at h⟩
    · split
      · next hangle =>
        -- the functions of an angle are none of the two
        rw [f.inRadians_eq_aborted_iff]
        have hne : ¬ (f = .arcsin ∨ f = .arccos) := by
          rintro (rfl | rfl) <;> simp [takesAngle] at hangle
        exact ⟨fun h => absurd h.1 hne, fun h => absurd h.1 hne⟩
      · split
        · rw [← f.inRadians_eq_aborted_iff]
          cases f.inRadians x with
          | error failure => exact Iff.rfl
          | ok angle => simp [Except.map]
        · exact f.inRadians_eq_aborted_iff x

end DecimalCalculator
