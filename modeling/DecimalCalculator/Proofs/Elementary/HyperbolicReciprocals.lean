import DecimalCalculator.Proofs.Elementary.ExponentialAccuracy
import DecimalCalculator.Proofs.Elementary.HyperbolicNearZero

/-!
The hyperbolic secant and cosecant.

* `reciprocal_isFlushed_iff`: a reciprocal is left below the threshold exactly above the reciprocal of
  the threshold, whence `sech_isFlushed_iff`, `csch_isFlushed_iff`.
* `sech_isFlushed_of_range`, `csch_isFlushed_of_range`: **secant and cosecant** are flushed up to 69,
  and left below the threshold from 70 on.
-/

namespace DecimalCalculator.Elementary

open Decimal

variable {x y v growing falling : Decimal}

/-! ### Reciprocals of large numbers -/

/-- A reciprocal of a number with no more digits than are worked with is flushed exactly if the number
is not above the reciprocal of the threshold. -/
lemma reciprocal_isFlushed_iff (hy : y.toRat ≠ 0) (hdigits : y.precision ≤ workingDigits) :
    IsFlushed (1 / y) ↔ |y.toRat| ≤ 10 ^ 30 := by
  have hpos := abs_pos.mpr hy
  rcases le_or_gt |y.toRat| (10 ^ 30) with hsmall | hlarge
  · refine iff_of_true (isFlushed_of_round (abs_reciprocal hy) ?_) hsmall
    exact one_div_le_one_div_of_le hpos hsmall
  · -- the next number above the power of ten
    have hnext : (10 : ℚ) ^ 30 + 1 / 10 ≤ |y.toRat| := by
      have hround := roundSignificant_neighbours (n := 10 ^ 31) (k := -1) hpos workingDigits_pos
        (by norm_num [workingDigits]) (by norm_num [workingDigits])
      rw [← abs_roundSignificant, roundSignificant_toRat workingDigits_pos hdigits] at hround
      norm_num [zpow_neg] at hround hlarge ⊢
      rcases hround with ⟨-, hless⟩ | ⟨-, hmore⟩ <;> linarith
    refine iff_of_false (not_isFlushed_of_round (abs_reciprocal hy) (one_div_pos.mpr hpos) ?_)
      (not_le.mpr hlarge)
    rw [div_lt_iff₀ hpos]
    norm_num at hnext ⊢
    linarith

/-- So is a reciprocal that ends a computation. -/
lemma reciprocal_isFlushed_iff_of_bind {r : Except Failure Decimal}
    (hdigits : Yields (fun c => c.precision ≤ workingDigits) r)
    (h : (r >>= quotientOrOverflow 1) = .ok v) :
    IsFlushed v ↔ ¬ ∃ c, r = .ok c ∧ 10 ^ 30 < |c.toRat| := by
  obtain ⟨c, rfl, h⟩ := bind_eq_ok_iff.mp h
  obtain ⟨hne, rfl⟩ := quotientOr_eq_ok_iff.mp h
  rw [reciprocal_isFlushed_iff hne (hdigits c rfl)]
  simp

/-- **The hyperbolic secant** is left below the threshold exactly where the cosine is large. -/
theorem sech_isFlushed_iff (h : sech x = .ok v) :
    IsFlushed v ↔ ¬ ∃ c, cosh x = .ok c ∧ 10 ^ 30 < |c.toRat| :=
  reciprocal_isFlushed_iff_of_bind (.bind fun _ _ => .ok (precision_div_le _ _)) h

/-- **The hyperbolic cosecant** is left below the threshold exactly where the sine is large. -/
theorem csch_isFlushed_iff (h : csch x = .ok v) :
    IsFlushed v ↔ ¬ ∃ c, sinh x = .ok c ∧ 10 ^ 30 < |c.toRat| := by
  rw [csch] at h
  split at h
  · exact absurd h (by simp)
  · exact reciprocal_isFlushed_iff_of_bind (.bind fun _ _ => .ok (precision_div_le _ _)) h

/-! ### Large arguments -/

/-- Powers of `e` about the reciprocal of the threshold. -/
lemma exp_sixtynine_le : Real.exp 69 ≤ 19 / 10 * 10 ^ 30 ∧ 22 / 10 * 10 ^ 30 ≤ Real.exp 70 := by
  have hpow : ∀ n : ℕ, Real.exp n = Real.exp 1 ^ n := fun n => by rw [← Real.exp_nat_mul, mul_one]
  constructor
  · have hle := pow_le_pow_left₀ (Real.exp_pos 1).le Real.exp_one_lt_d9.le 69
    rw [← hpow] at hle
    norm_num at hle ⊢
    linarith
  · have hge := pow_le_pow_left₀ (by norm_num) Real.exp_one_gt_d9.le 70
    rw [← hpow] at hge
    norm_num at hge ⊢
    linarith

/-- The growing exponential is the real one up to its relative error. -/
lemma growing_near (h : exponentials x = .ok (growing, falling)) :
    |growing.toReal - Real.exp x.toReal| ≤ 1 / 10 ^ 29 * Real.exp x.toReal := by
  obtain ⟨hexp, hne, -⟩ := exponentials_eq_ok h
  have hbelow : x.toRat < 2 ^ 31 := by
    by_contra hlarge
    rw [exp_of_le (not_lt.mp hlarge)] at hexp
    exact absurd hexp (by simp)
  obtain ⟨r, hr, hcases⟩ := exp_near hbelow
  obtain rfl : growing = r := Except.ok.inj (hexp.symm.trans hr)
  rcases hcases with ⟨rfl, -⟩ | hnear
  · exact absurd toRat_zero hne
  · exact hnear

/-- Up to 69, the exponentials do not exceed the reciprocal of the threshold. -/
lemma abs_exponentials_le (h : exponentials x = .ok (growing, falling)) (hx : x.toRat ≤ 69) :
    |growing.toRat| + |falling.toRat| ≤ 2 * 10 ^ 30 := by
  obtain ⟨hexp, hne, rfl⟩ := exponentials_eq_ok h
  have hnear := growing_near h
  rw [abs_le] at hnear
  have hcast : ∀ {b : ℚ}, |growing.toReal| ≤ b → |growing.toRat| ≤ b := abs_toRat_le
  rcases lt_or_ge x.toRat 0 with hneg | hnonneg
  · -- the falling exponential is the larger one
    have hone : Real.exp x.toReal ≤ 1 := Real.exp_le_one_iff.mpr (Rat.cast_nonpos.mpr hneg.le)
    have hgrowing : |growing.toRat| ≤ (2 : ℚ) := by
      refine hcast ?_
      rw [abs_le]
      have hpos := Real.exp_pos x.toReal
      norm_num at hnear ⊢
      constructor <;> linarith
    have hfalling := abs_reciprocal_le (n := 30) ((exp_isFlushed x growing hexp).resolve_left hne)
    norm_num at hfalling ⊢
    linarith
  · have hone : 1 ≤ Real.exp x.toReal := Real.one_le_exp (Rat.cast_nonneg.mpr hnonneg)
    have hmono : Real.exp x.toReal ≤ Real.exp 69 := by
      refine Real.exp_le_exp.mpr ?_
      rw [toReal]
      exact_mod_cast hx
    have hbound := exp_sixtynine_le.1
    have hgrowing : |growing.toRat| ≤ (191 / 100 * 10 ^ 30 : ℚ) := by
      refine hcast ?_
      push_cast
      rw [abs_le]
      norm_num at hnear hbound ⊢
      constructor <;> linarith
    have htenth : 1 / 10 ^ 1 ≤ |growing.toRat| := by
      have hreal : ((1 / 10 ^ 1 : ℚ) : ℝ) ≤ growing.toReal := by
        push_cast
        norm_num at hnear ⊢
        linarith
      exact (Rat.cast_le.mp hreal).trans (le_abs_self _)
    have hfalling := abs_reciprocal_le htenth
    norm_num at hgrowing hfalling ⊢
    linarith

/-- From 70 on, the growing exponential does, and the falling one is small. -/
lemma le_exponentials (h : exponentials x = .ok (growing, falling)) (hx : 70 ≤ x.toRat) :
    21 / 10 * 10 ^ 30 ≤ growing.toRat ∧ |falling.toRat| ≤ 1 := by
  obtain ⟨-, -, rfl⟩ := exponentials_eq_ok h
  have hnear := growing_near h
  have hmono : Real.exp 70 ≤ Real.exp x.toReal := by
    refine Real.exp_le_exp.mpr ?_
    rw [toReal]
    exact_mod_cast hx
  have hbound := exp_sixtynine_le.2
  have hgrowing : 21 / 10 * 10 ^ 30 ≤ growing.toRat := by
    have hreal : ((21 / 10 * 10 ^ 30 : ℚ) : ℝ) ≤ growing.toReal := by
      rw [abs_le] at hnear
      push_cast
      norm_num at hnear hbound ⊢
      linarith
    exact Rat.cast_le.mp hreal
  refine ⟨hgrowing, ?_⟩
  have hone : 1 / 10 ^ 0 ≤ |growing.toRat| := by
    refine le_trans ?_ (le_abs_self _)
    norm_num at hgrowing ⊢
    linarith
  have := abs_reciprocal_le hone
  rwa [pow_zero] at this

/-- Half a number, rounded, is large if the number is. -/
lemma abs_dividedBy_two (y : Decimal) :
    (|y.toRat| ≤ 2 * 10 ^ 30 → |(y.dividedBy 2).toRat| ≤ 10 ^ 30) ∧
      (205 / 100 * 10 ^ 30 ≤ |y.toRat| → 10 ^ 30 < |(y.dividedBy 2).toRat|) := by
  have hsize : |(y.dividedBy 2).toRat| = roundSignificant workingDigits (|y.toRat| / 2) := by
    rw [toRat_dividedBy, abs_roundSignificant, abs_div, Nat.abs_cast]
    rfl
  rw [hsize]
  constructor
  · intro hle
    have hfew : |(10 ^ 30 : ℤ)| < 10 ^ workingDigits := by norm_num [workingDigits]
    calc roundSignificant workingDigits (|y.toRat| / 2)
        ≤ roundSignificant workingDigits ((10 ^ 30 : ℤ) : ℚ) :=
          roundSignificant_mono workingDigits_pos (by push_cast; linarith)
      _ = (10 ^ 30 : ℤ) := roundSignificant_intCast hfew
      _ = 10 ^ 30 := by norm_cast
  · intro hge
    have hround := abs_roundSignificant_sub_le workingDigits_pos (|y.toRat| / 2)
    rw [abs_of_nonneg (by positivity : (0 : ℚ) ≤ |y.toRat| / 2), abs_le] at hround
    norm_num [workingDigits] at hround hge ⊢
    linarith

/-- **The hyperbolic secant** is flushed up to 69, and left below the threshold from 70 on. -/
theorem sech_isFlushed_of_range (h : sech x = .ok v) :
    (x.toRat ≤ 69 → IsFlushed v) ∧ (70 ≤ x.toRat → ¬ IsFlushed v) := by
  rw [sech_isFlushed_iff h]
  obtain ⟨c, hcosine, -⟩ := bind_eq_ok_iff.mp h
  obtain ⟨⟨growing, falling⟩, hexp, hvalue⟩ := bind_eq_ok_iff.mp hcosine
  obtain rfl := Except.ok.inj hvalue
  constructor
  · rintro hx ⟨c, hc, hlarge⟩
    obtain rfl := Except.ok.inj (hcosine.symm.trans hc)
    refine absurd hlarge (not_lt.mpr ((abs_dividedBy_two _).1 ?_))
    rw [toRat_add]
    exact (abs_add_le _ _).trans (abs_exponentials_le hexp hx)
  · rintro hx hsmall
    obtain ⟨hgrowing, hfalling⟩ := le_exponentials hexp hx
    refine hsmall ⟨_, hcosine, (abs_dividedBy_two _).2 ?_⟩
    rw [abs_le] at hfalling
    refine le_trans ?_ (le_abs_self _)
    rw [toRat_add]
    norm_num at hgrowing ⊢
    linarith

/-- **The hyperbolic cosecant** is flushed and left below the threshold in the same ranges. -/
theorem csch_isFlushed_of_range (h : csch x = .ok v) :
    (x.toRat ≤ 69 → IsFlushed v) ∧ (70 ≤ x.toRat → ¬ IsFlushed v) := by
  rw [csch_isFlushed_iff h]
  rw [csch] at h
  split at h
  · exact absurd h (by simp)
  obtain ⟨c, hsine, -⟩ := bind_eq_ok_iff.mp h
  obtain ⟨⟨growing, falling⟩, hexp, hvalue⟩ := bind_eq_ok_iff.mp hsine
  obtain rfl := Except.ok.inj hvalue
  constructor
  · rintro hx ⟨c, hc, hlarge⟩
    obtain rfl := Except.ok.inj (hsine.symm.trans hc)
    refine absurd hlarge (not_lt.mpr ((abs_dividedBy_two _).1 ?_))
    rw [toRat_sub]
    exact (abs_sub _ _).trans (abs_exponentials_le hexp hx)
  · rintro hx hsmall
    obtain ⟨hgrowing, hfalling⟩ := le_exponentials hexp hx
    refine hsmall ⟨_, hsine, (abs_dividedBy_two _).2 ?_⟩
    rw [abs_le] at hfalling
    refine le_trans ?_ (le_abs_self _)
    rw [toRat_sub]
    norm_num at hgrowing ⊢
    linarith

end DecimalCalculator.Elementary
