import DecimalCalculator.Proofs.Elementary.Flushed

/-!
The hyperbolic functions near zero.

* `reciprocal_above`, `reciprocal_below`: reciprocals of numbers a few units from one.
* `expSeries_sum_of_lt`, `le_expSeries_sum`: the exponential series near zero, whence
  `grown_cases`: **the exponential function near zero** counts tenths of a unit of the threshold, or
  differs from one by such a unit. `exponentials_cases`: so do the two exponentials together.
* `sinh_isFlushed_iff`, `tanh_isFlushed_iff`: **sine and tangent** are left below the threshold exactly
  where some of these tenths are counted (`IsTiny`).
* `cosh_isFlushed`, `coth_isFlushed`: **cosine and cotangent** are flushed.
-/

namespace DecimalCalculator.Elementary

open Decimal

variable {x y v : Decimal} {q : ℚ} {m : ℕ}

/-! ### Numbers near one -/

/-- A reciprocal is rounded once. -/
lemma toRat_reciprocal (y : Decimal) : (1 / y).toRat = roundSignificant workingDigits (1 / y.toRat) := by
  rw [toRat_div, toRat_one]

/-- The reciprocal of a number a few units above one is as many units below one. -/
lemma reciprocal_above (hm : 1 ≤ m) (hm' : m ≤ 10) (hy : y.toRat = 1 + m / 10 ^ 31) :
    (1 / y).toRat = 1 - m / 10 ^ 31 := by
  have hmq : (1 : ℚ) ≤ m := by exact_mod_cast hm
  have hmq' : (m : ℚ) ≤ 10 := by exact_mod_cast hm'
  have hcast : ((10 ^ 32 - 1 - 10 * m : ℕ) : ℚ) = 10 ^ 32 - 1 - 10 * m := by
    rw [Nat.cast_sub (by omega), Nat.cast_sub (by norm_num)]
    norm_num
  have hpos : (0 : ℚ) < 1 + m / 10 ^ 31 := by positivity
  rw [toRat_reciprocal, hy, roundSignificant_eq_of_near (n := 10 ^ 32 - 1 - 10 * m) (k := -32)
    workingDigits_pos (by norm_num [workingDigits]; omega) (by norm_num [workingDigits]; omega)]
  · rw [hcast]
    norm_num [zpow_neg]
    ring
  · rw [hcast, le_div_iff₀ hpos]
    norm_num [zpow_neg]
    nlinarith
  · rw [hcast, div_lt_iff₀ hpos]
    norm_num [zpow_neg]
    nlinarith

/-- The reciprocal of a number a few units below one is as many units above one. -/
lemma reciprocal_below (hm : 1 ≤ m) (hm' : m ≤ 10) (hy : y.toRat = 1 - m / 10 ^ 31) :
    (1 / y).toRat = 1 + m / 10 ^ 31 := by
  have hmq : (1 : ℚ) ≤ m := by exact_mod_cast hm
  have hmq' : (m : ℚ) ≤ 10 := by exact_mod_cast hm'
  obtain ⟨n, rfl⟩ : ∃ n, m = n + 1 := ⟨m - 1, by omega⟩
  have hpos : (0 : ℚ) < 1 - (n + 1 : ℕ) / 10 ^ 31 := by
    norm_num at hmq' ⊢
    linarith
  rw [toRat_reciprocal, hy, roundSignificant_eq_of_near (n := 10 ^ 31 + n) (k := -31)
    workingDigits_pos (by norm_num [workingDigits]) (by norm_num [workingDigits]; omega)]
  · push_cast
    norm_num [zpow_neg]
    ring
  · rw [le_div_iff₀ hpos]
    push_cast at hmq hmq' ⊢
    norm_num [zpow_neg]
    nlinarith
  · rw [div_lt_iff₀ hpos]
    push_cast at hmq hmq' ⊢
    norm_num [zpow_neg]
    nlinarith

/-- Rounded reciprocals are in the opposite order. -/
lemma reciprocal_anti {z : Decimal} (hpos : 0 < y.toRat) (hle : y.toRat ≤ z.toRat) :
    (1 / z).toRat ≤ (1 / y).toRat := by
  rw [toRat_reciprocal, toRat_reciprocal]
  exact roundSignificant_mono workingDigits_pos (one_div_le_one_div_of_le hpos hle)

/-- So the reciprocal of a number from ten units above one on is at least as many units below one. -/
lemma reciprocal_le (h : 1 + 1 / 10 ^ 30 ≤ y.toRat) :
    0 ≤ (1 / y).toRat ∧ (1 / y).toRat ≤ 1 - 1 / 10 ^ 30 := by
  have hpos : 0 < y.toRat := lt_of_lt_of_le (by norm_num) h
  have hten : (⟨10 ^ 31 + 10, 31⟩ : Decimal).toRat = 1 + (10 : ℕ) / 10 ^ 31 := by
    norm_num [toRat, zpow_neg]
  have hvalue := reciprocal_above (by norm_num) le_rfl hten
  refine ⟨reciprocal_nonneg hpos, ?_⟩
  have hanti := reciprocal_anti (y := ⟨10 ^ 31 + 10, 31⟩) (z := y) (by rw [hten]; positivity) (by
    rw [hten]
    norm_num at h ⊢
    linarith)
  rw [hvalue] at hanti
  norm_num at hanti ⊢
  linarith

/-- And that of a number at least ten units below one is as many units above one. -/
lemma le_reciprocal (hpos : 0 < y.toRat) (h : y.toRat ≤ 1 - 1 / 10 ^ 30) :
    1 + 1 / 10 ^ 30 ≤ (1 / y).toRat := by
  have hten : (⟨10 ^ 31 - 10, 31⟩ : Decimal).toRat = 1 - (10 : ℕ) / 10 ^ 31 := by
    norm_num [toRat, zpow_neg]
  have hvalue := reciprocal_below (by norm_num) le_rfl hten
  have hanti := reciprocal_anti (y := y) (z := ⟨10 ^ 31 - 10, 31⟩) hpos (by
    rw [hten]
    norm_num at h ⊢
    linarith)
  rw [hvalue] at hanti
  norm_num at hanti ⊢
  linarith

/-! ### The exponential series near zero -/

/-- The first term of the exponential series that depends on the argument. -/
lemma toRat_expSeries_term (y : Decimal) :
    (1 * y.dividedBy (0 + 1)).toRat = (y.round workingDigits).toRat := by
  have hround : (y.dividedBy (0 + 1)).toRat = (y.round workingDigits).toRat := by
    rw [toRat_dividedBy, zero_add, Nat.cast_one, div_one, toRat_round workingDigits_pos]
  rw [toRat_mul, toRat_one, one_mul, hround]
  exact roundSignificant_toRat workingDigits_pos (precision_round_le workingDigits_pos _)

/-- Below the threshold, the series ends with that term. -/
lemma expSeries_sum_of_lt (h : |(y.round workingDigits).toRat| < 1 / 10 ^ 30) :
    (expSeries y).sum.toRat = 1 + (y.round workingDigits).toRat := by
  have hsmall : (1 * y.dividedBy (0 + 1)).abs < threshold := by
    rwa [lt_iff, toRat_abs, toRat_threshold, toRat_expSeries_term]
  have hsum : (expSeries y).sum = 1 + 1 * y.dividedBy (0 + 1) := Series.sum_eq_of_lt hsmall
  rw [hsum, toRat_add, toRat_one, toRat_expSeries_term]

/-- The sum of the series is at least that of its first two terms. -/
lemma le_expSeries_sum (hy : 0 ≤ y.toRat) (hone : y.toRat ≤ 1) :
    1 + (y.round workingDigits).toRat ≤ (expSeries y).sum.toRat := by
  set first := (expSeries y).step 0 (expSeries y).start with hfirst
  have hstate : IsExpState 1 first :=
    IsExpState.step hy hone (by constructor <;> simp [Series.start, expSeries])
  have hsum : first.sum.toRat = 1 + (y.round workingDigits).toRat := by
    rw [← toRat_expSeries_term, ← toRat_one, ← toRat_add]
    rfl
  -- further terms are not negative
  obtain ⟨j, -, ⟨-, hlow⟩, -⟩ := Series.run_induction (s := expSeries y)
    (P := fun k state => IsExpState k state ∧ first.sum.toRat ≤ state.sum.toRat)
    (fun k state h => ⟨h.1.step hy hone, by
      have hterm := (h.1.step hy hone).nonneg
      have hadd : ((expSeries y).step k state).sum.toRat =
          state.sum.toRat + ((expSeries y).step k state).factor.toRat := toRat_add _ _
      linarith [h.2]⟩) 999 1 first ⟨hstate, le_rfl⟩
  rw [Series.sum_eq_run, ← hsum]
  exact hlow

/-! ### The exponential function near zero -/

/-- Below one, no power of `e` is taken out. -/
lemma grown_of_lt_one {w : ℤ} {p : Decimal} (hw : wholeExponent? x.abs = some w)
    (hp : e.power? w = some p) (hx : |x.toRat| < 1) :
    (grown x w p).toRat =
      roundSignificant workingDigits (expSeries (x.abs - ofInt 0)).sum.toRat := by
  obtain ⟨hnonneg, -, hle, -⟩ := wholeExponent?_spec (toRat_abs_nonneg x) hw
  obtain rfl : w = 0 := by
    rw [toRat_abs] at hle
    have : (w : ℚ) < 1 := hle.trans_lt hx
    have : w < 1 := by exact_mod_cast this
    omega
  obtain rfl : p = 1 := by
    rw [power?, if_pos rfl] at hp
    exact (Option.some.inj hp).symm
  rw [grown, toRat_mul, toRat_one, one_mul]

/-- Rounding a number that exceeds one by less than a unit of the threshold counts the tenths of that
unit. -/
lemma round_one_add_cases {a : ℚ} (ha : 0 ≤ a) :
    (a < 5 / 10 ^ 32 ∧ roundSignificant workingDigits (1 + a) = 1) ∨
      (5 / 10 ^ 32 ≤ a ∧ a < 95 / 10 ^ 32 ∧
        ∃ m : ℕ, 1 ≤ m ∧ m ≤ 9 ∧ roundSignificant workingDigits (1 + a) = 1 + m / 10 ^ 31) ∨
      (95 / 10 ^ 32 ≤ a ∧ 1 + 1 / 10 ^ 30 ≤ roundSignificant workingDigits (1 + a)) := by
  have hpos : 0 < 1 + a := by linarith
  have hcut := succ_div_le_round_iff (n := 10 ^ 31) hpos le_rfl (by norm_num)
  have hcut' := succ_div_le_round_iff (n := 10 ^ 31 + 9) hpos (by norm_num) (by norm_num)
  set r := roundSignificant workingDigits (1 + a) with hr
  rcases lt_or_ge a (5 / 10 ^ 32) with hless | hmore
  · refine Or.inl ⟨hless, le_antisymm ?_ ?_⟩
    · have hround := roundSignificant_neighbours (n := 10 ^ 31) (k := -31) hpos workingDigits_pos
        (by norm_num [workingDigits]) (by norm_num [workingDigits])
      rw [← hr] at hround
      norm_num [zpow_neg] at hround hless
      rcases hround with ⟨-, hround⟩ | ⟨habsurd, -⟩
      · exact hround
      · linarith
    · have := le_roundSignificant (k := 0) workingDigits_pos (show (10 : ℚ) ^ (0 : ℤ) ≤ 1 + a by
        rw [zpow_zero]
        linarith)
      rwa [zpow_zero] at this
  · rcases lt_or_ge a (95 / 10 ^ 32) with hless | hlarge
    · refine Or.inr (Or.inl ⟨hmore, hless, ?_⟩)
      push_cast at hcut hcut'
      have hlow := hcut.mpr (by norm_num at hmore ⊢; linarith)
      have hhigh := mt hcut'.mp (by norm_num at hless ⊢; linarith)
      rw [not_le] at hhigh
      obtain ⟨n, hn⟩ := exists_mantissa (q := 1 + a) (by rw [← hr]; norm_num at hlow ⊢; linarith)
        (by rw [← hr]; norm_num at hhigh ⊢; linarith)
      rw [← hr] at hn
      rw [hn, div_le_div_iff_of_pos_right (by positivity)] at hlow
      rw [hn, div_lt_div_iff_of_pos_right (by positivity)] at hhigh
      have hlow' : 10 ^ 31 + 1 ≤ n := by exact_mod_cast hlow
      have hhigh' : n < 10 ^ 31 + 9 + 1 := by exact_mod_cast hhigh
      obtain ⟨m, rfl⟩ := Nat.exists_eq_add_of_le (show 10 ^ 31 ≤ n by omega)
      refine ⟨m, by omega, by omega, ?_⟩
      rw [hn]
      push_cast
      ring
    · refine Or.inr (Or.inr ⟨hlarge, ?_⟩)
      have := hcut'.mpr (by norm_num at hlarge ⊢; linarith)
      norm_num at this ⊢
      linarith

/-- **The exponential function near zero**, before an argument below zero inverts it: it counts the
tenths of a unit of the threshold, or exceeds one by such a unit. -/
theorem grown_cases {w : ℤ} {p : Decimal} (hw : wholeExponent? x.abs = some w)
    (hp : e.power? w = some p) :
    (|(x.round workingDigits).toRat| < 5 / 10 ^ 32 ∧ (grown x w p).toRat = 1) ∨
      (5 / 10 ^ 32 ≤ |(x.round workingDigits).toRat| ∧ |(x.round workingDigits).toRat| < 95 / 10 ^ 32 ∧
        ∃ m : ℕ, 1 ≤ m ∧ m ≤ 9 ∧ (grown x w p).toRat = 1 + m / 10 ^ 31) ∨
      (95 / 10 ^ 32 ≤ |(x.round workingDigits).toRat| ∧ 1 + 1 / 10 ^ 30 ≤ (grown x w p).toRat) := by
  have hround : |(x.round workingDigits).toRat| = roundSignificant workingDigits |x.toRat| := by
    rw [toRat_round workingDigits_pos, abs_roundSignificant]
  rcases lt_or_ge |x.toRat| (1 / 10 ^ 20) with hsmall | hlarge
  · -- the series decides
    have hvalue : (x.abs - ofInt 0).toRat = |x.toRat| := by simp
    have hrest : ((x.abs - ofInt 0).round workingDigits).toRat = |(x.round workingDigits).toRat| := by
      rw [toRat_round workingDigits_pos, hvalue, hround]
    have hone : |x.toRat| < 1 := hsmall.trans (by norm_num)
    rw [grown_of_lt_one hw hp hone]
    rcases lt_or_ge |(x.round workingDigits).toRat| (1 / 10 ^ 30) with hbelow | habove
    · rw [expSeries_sum_of_lt (by rwa [hrest, abs_abs]), hrest]
      exact round_one_add_cases (abs_nonneg _)
    · have hsum := le_expSeries_sum (y := x.abs - ofInt 0) (by rw [hvalue]; exact abs_nonneg _)
        (by rw [hvalue]; exact hone.le)
      rw [hrest] at hsum
      refine Or.inr (Or.inr ⟨le_trans (by norm_num) habove, ?_⟩)
      have hcut := succ_div_le_round_iff (q := (expSeries (x.abs - ofInt 0)).sum.toRat)
        (n := 10 ^ 31 + 9) (by linarith [abs_nonneg (x.round workingDigits).toRat]) (by norm_num)
        (by norm_num)
      push_cast at hcut
      have := hcut.mpr (by norm_num at habove ⊢; linarith)
      norm_num at this ⊢
      linarith
  · -- the accuracy of the exponential function is enough
    have hpow : (1 : ℚ) / 10 ^ 20 = 10 ^ (-20 : ℤ) := by norm_num [zpow_neg]
    have hround' : 1 / 10 ^ 20 ≤ |(x.round workingDigits).toRat| := by
      rw [hround, hpow]
      exact le_roundSignificant workingDigits_pos (hpow ▸ hlarge)
    refine Or.inr (Or.inr ⟨le_trans (by norm_num) hround', ?_⟩)
    have hnear := grown_near hw hp
    have hexp := Real.add_one_le_exp |x.toReal|
    have hlarge' : 1 / 10 ^ 20 ≤ |x.toReal| := by
      have hcast := (Rat.cast_le (K := ℝ)).mpr hlarge
      push_cast at hcast
      exact hcast
    rw [IsNear, abs_of_pos (Real.exp_pos _), abs_le] at hnear
    have hreal : ((1 + 1 / 10 ^ 30 : ℚ) : ℝ) ≤ (grown x w p).toReal := by
      push_cast
      norm_num at hlarge' hnear ⊢
      linarith
    exact Rat.cast_le.mp hreal

/-! ### Hyperbolic functions near zero -/

variable {growing falling : Decimal}

/-- What the hyperbolic functions start from. -/
lemma exponentials_eq_ok (h : exponentials x = .ok (growing, falling)) :
    exp x = .ok growing ∧ growing.toRat ≠ 0 ∧ falling = 1 / growing := by
  obtain ⟨g, hexp, h⟩ := bind_eq_ok_iff.mp h
  obtain ⟨f, hquotient, h⟩ := bind_eq_ok_iff.mp h
  obtain ⟨rfl, rfl⟩ := Prod.mk.inj (Except.ok.inj h)
  obtain ⟨hne, hvalue⟩ := quotientOr_eq_ok_iff.mp hquotient
  exact ⟨hexp, hne, hvalue.symm⟩

/-- The exponential of a number of either sign is the number `grown` or its reciprocal. -/
lemma exponentials_eq_grown (h : exponentials x = .ok (growing, falling)) :
    ∃ w p, wholeExponent? x.abs = some w ∧ e.power? w = some p ∧
      (growing = grown x w p ∨ growing = 1 / grown x w p) ∧ falling = 1 / growing := by
  obtain ⟨hexp, hne, hfalling⟩ := exponentials_eq_ok h
  cases hw : wholeExponent? x.abs with
  | none =>
    rw [exp_of_wholeExponent?_eq_none hw] at hexp
    split at hexp
    · exact absurd (by rw [← Except.ok.inj hexp, toRat_zero]) hne
    · exact absurd hexp (by simp)
  | some w =>
    obtain ⟨hnonneg, hrange, -⟩ := wholeExponent?_spec (toRat_abs_nonneg x) hw
    obtain ⟨p, hp⟩ := exists_power_e hnonneg hrange
    have hone := (grown_bounds hw hp).1
    rw [exp_of_wholeExponent? hw hp (by linarith)] at hexp
    have hvalue := Except.ok.inj hexp
    -- what is flushed is not a divisor
    have hkept : ∀ z : Decimal, flush z = growing → growing = z := by
      intro z hz
      rcases lt_or_ge |z.toRat| (1 / 10 ^ 30) with hsmall | hlarge
      · rw [flush_of_lt hsmall] at hz
        exact absurd (by rw [← hz, toRat_zero]) hne
      · rw [← hz, flush_of_le hlarge]
    refine ⟨w, p, rfl, hp, ?_, hfalling⟩
    split at hvalue
    · exact Or.inr (hkept _ hvalue)
    · exact Or.inl (hkept _ hvalue)

/-- **The two exponentials near zero** are the same number of tenths of a unit of the threshold above
and below one, or differ from one by such a unit. -/
theorem exponentials_cases (h : exponentials x = .ok (growing, falling)) :
    ∃ upper lower : ℚ,
      (growing.toRat = upper ∧ falling.toRat = lower ∨
        growing.toRat = lower ∧ falling.toRat = upper) ∧
      (|(x.round workingDigits).toRat| < 5 / 10 ^ 32 ∧ upper = 1 ∧ lower = 1 ∨
        5 / 10 ^ 32 ≤ |(x.round workingDigits).toRat| ∧
          |(x.round workingDigits).toRat| < 95 / 10 ^ 32 ∧
          (∃ m : ℕ, 1 ≤ m ∧ m ≤ 9 ∧ upper = 1 + m / 10 ^ 31 ∧ lower = 1 - m / 10 ^ 31) ∨
        95 / 10 ^ 32 ≤ |(x.round workingDigits).toRat| ∧ 1 + 1 / 10 ^ 30 ≤ upper ∧ 0 ≤ lower ∧
          lower ≤ 1 - 1 / 10 ^ 30) := by
  obtain ⟨w, p, hw, hp, hgrowing, rfl⟩ := exponentials_eq_grown h
  have hone := (grown_bounds hw hp).1
  have hne := (exponentials_eq_ok h).2.1
  set G := grown x w p with hG
  have hone' : ∀ {z : Decimal}, z.toRat = 1 → (1 / z).toRat = 1 := by
    intro z hz
    rw [toRat_reciprocal, hz, div_one]
    exact_mod_cast roundSignificant_intCast (n := 1) (by norm_num [workingDigits])
  rcases grown_cases hw hp with ⟨ha, hvalue⟩ | ⟨ha, ha', m, hm, hm', hvalue⟩ | ⟨ha, hvalue⟩
  · rw [← hG] at hvalue
    refine ⟨1, 1, ?_, Or.inl ⟨ha, rfl, rfl⟩⟩
    rcases hgrowing with rfl | rfl
    · exact Or.inl ⟨hvalue, hone' hvalue⟩
    · exact Or.inl ⟨hone' hvalue, hone' (hone' hvalue)⟩
  · rw [← hG] at hvalue
    have hbelow := reciprocal_above hm (hm'.trans (by norm_num)) hvalue
    refine ⟨_, _, ?_, Or.inr (Or.inl ⟨ha, ha', m, hm, hm', rfl, rfl⟩)⟩
    rcases hgrowing with rfl | rfl
    · exact Or.inl ⟨hvalue, hbelow⟩
    · exact Or.inr ⟨hbelow, reciprocal_below hm (hm'.trans (by norm_num)) hbelow⟩
  · rw [← hG] at hvalue
    obtain ⟨hnonneg, hbelow⟩ := reciprocal_le hvalue
    rcases hgrowing with rfl | rfl
    · exact ⟨_, _, Or.inl ⟨rfl, rfl⟩, Or.inr (Or.inr ⟨ha, hvalue, hnonneg, hbelow⟩)⟩
    · have habove := le_reciprocal (lt_of_le_of_ne hnonneg (Ne.symm hne)) hbelow
      exact ⟨_, _, Or.inr ⟨rfl, rfl⟩, Or.inr (Or.inr ⟨ha, habove, hnonneg, hbelow⟩)⟩

/-- An argument whose hyperbolic sine and tangent are left below the threshold. -/
def IsTiny (x : Decimal) : Prop :=
  5 / 10 ^ 32 ≤ |(x.round workingDigits).toRat| ∧ |(x.round workingDigits).toRat| < 95 / 10 ^ 32

/-- A result that counts tenths of a unit of the threshold is flushed unless it counts some of them. -/
lemma isFlushed_iff_of_ratio (hv : |v.toRat| = roundSignificant workingDigits q)
    (hcases : |(x.round workingDigits).toRat| < 5 / 10 ^ 32 ∧ q = 0 ∨
      5 / 10 ^ 32 ≤ |(x.round workingDigits).toRat| ∧ |(x.round workingDigits).toRat| < 95 / 10 ^ 32 ∧
        (∃ m : ℕ, 1 ≤ m ∧ m ≤ 9 ∧ q = m / 10 ^ 31) ∨
      95 / 10 ^ 32 ≤ |(x.round workingDigits).toRat| ∧ 1 / 10 ^ 30 ≤ q) :
    IsFlushed v ↔ ¬ IsTiny x := by
  rcases hcases with ⟨ha, hq⟩ | ⟨ha, ha', m, hm, hm', hq⟩ | ⟨ha, hq⟩
  · rw [hq, roundSignificant_zero, abs_eq_zero] at hv
    exact iff_of_true (Or.inl hv) fun h => absurd h.1 (not_le.mpr ha)
  · have hmq : (1 : ℚ) ≤ m := by exact_mod_cast hm
    have hmq' : (m : ℚ) ≤ 9 := by exact_mod_cast hm'
    refine iff_of_false (not_isFlushed_of_round hv ?_ ?_) (not_not.mpr ⟨ha, ha'⟩) <;>
    · rw [hq]
      norm_num
      linarith
  · exact iff_of_true (isFlushed_of_round hv hq) fun h => absurd h.2 (not_lt.mpr ha)

/-- **The hyperbolic sine** is left below the threshold exactly for tiny arguments. -/
theorem sinh_isFlushed_iff (h : sinh x = .ok v) : IsFlushed v ↔ ¬ IsTiny x := by
  obtain ⟨⟨growing, falling⟩, hexp, h⟩ := bind_eq_ok_iff.mp h
  obtain rfl := Except.ok.inj h
  obtain ⟨upper, lower, hpair, hcases⟩ := exponentials_cases hexp
  have hvalue : |((growing - falling).dividedBy 2).toRat| =
      roundSignificant workingDigits (|upper - lower| / 2) := by
    rw [toRat_dividedBy, abs_roundSignificant, abs_div, toRat_sub, Nat.abs_cast]
    rcases hpair with ⟨hg, hf⟩ | ⟨hg, hf⟩
    · rw [hg, hf]
      rfl
    · rw [hg, hf, abs_sub_comm]
      rfl
  refine isFlushed_iff_of_ratio hvalue ?_
  rcases hcases with ⟨ha, rfl, rfl⟩ | ⟨ha, ha', m, hm, hm', rfl, rfl⟩ | ⟨ha, hupper, hnonneg, hlower⟩
  · exact Or.inl ⟨ha, by norm_num⟩
  · refine Or.inr (Or.inl ⟨ha, ha', m, hm, hm', ?_⟩)
    rw [abs_of_nonneg (by ring_nf; positivity)]
    ring
  · refine Or.inr (Or.inr ⟨ha, ?_⟩)
    rw [abs_of_nonneg (by norm_num at hupper hlower; linarith)]
    norm_num at hupper hlower ⊢
    linarith

/-- **The hyperbolic tangent** is left below the threshold for the same arguments. -/
theorem tanh_isFlushed_iff (h : tanh x = .ok v) : IsFlushed v ↔ ¬ IsTiny x := by
  obtain ⟨⟨growing, falling⟩, hexp, h⟩ := bind_eq_ok_iff.mp h
  obtain ⟨-, rfl⟩ := quotientOr_eq_ok_iff.mp h
  obtain ⟨upper, lower, hpair, hcases⟩ := exponentials_cases hexp
  have hvalue : |((growing - falling) / (growing + falling)).toRat| =
      roundSignificant workingDigits (|upper - lower| / |upper + lower|) := by
    rw [toRat_div, abs_roundSignificant, abs_div, toRat_sub, toRat_add]
    rcases hpair with ⟨hg, hf⟩ | ⟨hg, hf⟩
    · rw [hg, hf]
    · rw [hg, hf, abs_sub_comm, add_comm]
  refine isFlushed_iff_of_ratio hvalue ?_
  rcases hcases with ⟨ha, rfl, rfl⟩ | ⟨ha, ha', m, hm, hm', rfl, rfl⟩ | ⟨ha, hupper, hnonneg, hlower⟩
  · exact Or.inl ⟨ha, by norm_num⟩
  · refine Or.inr (Or.inl ⟨ha, ha', m, hm, hm', ?_⟩)
    rw [abs_of_nonneg (by ring_nf; positivity)]
    norm_num
  · refine Or.inr (Or.inr ⟨ha, ?_⟩)
    have hpos : 0 < upper + lower := by linarith
    rw [abs_of_nonneg (by norm_num at hupper hlower; linarith), abs_of_pos hpos, le_div_iff₀ hpos]
    norm_num at hupper hlower ⊢
    linarith

/-- **The hyperbolic cosine** is flushed: one of the two exponentials is at least one. -/
lemma cosh_isFlushed (x : Decimal) : Yields IsFlushed (cosh x) := by
  intro v h
  obtain ⟨⟨growing, falling⟩, hexp, h⟩ := bind_eq_ok_iff.mp h
  obtain rfl := Except.ok.inj h
  obtain ⟨upper, lower, hpair, hcases⟩ := exponentials_cases hexp
  have hsum : 1 ≤ (growing + falling).toRat := by
    have hone : 1 ≤ upper + lower := by
      rcases hcases with ⟨-, rfl, rfl⟩ | ⟨-, -, m, -, -, rfl, rfl⟩ | ⟨-, hupper, hnonneg, -⟩ <;> linarith
    rw [toRat_add]
    rcases hpair with ⟨hg, hf⟩ | ⟨hg, hf⟩ <;> rw [hg, hf] <;> linarith
  refine isFlushed_of_round (q := |(growing + falling).toRat / (2 : ℕ)|) ?_ ?_
  · rw [toRat_dividedBy, abs_roundSignificant]
  · generalize (growing + falling).toRat = b at hsum
    refine le_trans ?_ (le_abs_self _)
    norm_num
    linarith

/-- **The hyperbolic cotangent** is flushed: the sum of the two exponentials is at least their
difference. -/
lemma coth_isFlushed (x : Decimal) : Yields IsFlushed (coth x) := by
  refine .ite (fun _ => .error _) fun _ => .bind fun pair hexp => quotientOr_isFlushed fun _ => Or.inr ?_
  obtain ⟨growing, falling⟩ := pair
  obtain ⟨upper, lower, hpair, hcases⟩ := exponentials_cases hexp
  have hbounds : 0 ≤ lower ∧ 0 ≤ upper := by
    rcases hcases with ⟨-, rfl, rfl⟩ | ⟨-, -, m, -, hm, rfl, rfl⟩ | ⟨-, hupper, hnonneg, -⟩
    · exact ⟨zero_le_one, zero_le_one⟩
    · have hm' : (m : ℚ) ≤ 9 := by exact_mod_cast hm
      refine ⟨?_, by positivity⟩
      norm_num
      linarith
    · exact ⟨hnonneg, by linarith⟩
  have hle : |growing.toRat - falling.toRat| ≤ |growing.toRat + falling.toRat| := by
    refine le_trans ?_ (le_abs_self _)
    rw [abs_le]
    rcases hpair with ⟨hg, hf⟩ | ⟨hg, hf⟩ <;> rw [hg, hf] <;> constructor <;> linarith
  rw [toRat_add, toRat_sub]
  linarith [abs_nonneg (growing.toRat + falling.toRat)]

end DecimalCalculator.Elementary
