import DecimalCalculator.Proofs.Elementary.CircularZeros
import DecimalCalculator.Proofs.Elementary.Equality
import DecimalCalculator.Proofs.Elementary.UnitInterval

/-!
The poles of the circular functions in degrees.

* `turns`: how many turns an angle in degrees counts, as its reduction finds. `exists_units`: from ten
  turns on they count units of `10 ^ (-30)`.
* `cosine_small_iff`, `sine_small_iff`: **from ten turns on** the sum of the cosine is below the
  threshold exactly where the turns count as an odd number of quarters, and that of the sine where they
  count as a whole number of halves.
* `rightAngles_spec`: the first multiples of a right angle are counted right, and up to ten turns the
  sums vanish.
* `cos_toRadians_eq_zero_iff`, `sin_toRadians_eq_zero_iff`: so **whole multiples of a right angle** have
  no cosine or no sine exactly where their turns are counted right.
* `degree_poles`: **poles in degrees** are reported exactly there, and always up to 32 of them on either
  side. `not_forall_degree_poles`: they are not reported everywhere.
-/

namespace DecimalCalculator.Elementary

open Decimal

/-! ### Turns -/

/-- The turns that an angle in degrees counts, as its reduction finds. -/
def turns (x : Decimal) : Decimal := (toRadians x).abs / fullTurn

variable {x y : Decimal}

/-- The size of an angle in degrees decides on its size in radians. -/
lemma abs_toRadians_congr (h : |x.toRat| = |y.toRat|) : (toRadians x).abs ≈ (toRadians y).abs := by
  rw [equiv_iff, toRat_abs, toRat_abs, toRadians, toRadians, toRat_mul, toRat_mul,
    abs_roundSignificant, abs_roundSignificant, abs_mul, abs_mul, h]

/-- From ten on, quotients count units of `10 ^ (-30)`. -/
lemma exists_units (hten : 10 ≤ (x / y).toRat) : ∃ g : ℕ, (x / y).toRat = g / 10 ^ 30 := by
  set q := x / y with hq
  have hmantissa : q.mantissa.natAbs < 10 ^ 32 :=
    (digitCount_le_iff (by norm_num)).mp (precision_div_le x y)
  have hsize : |(q.mantissa : ℚ)| < 10 ^ 32 := by
    rw [← Int.cast_abs, Int.abs_eq_natAbs]
    exact_mod_cast hmantissa
  have hscale : q.scale ≤ 30 := by
    by_contra hmore
    have hpow : (10 : ℚ) ^ (-q.scale) ≤ 10 ^ (-31 : ℤ) := zpow_le_zpow_right₀ (by norm_num) (by omega)
    have hpos := zpow_ten_pos (-q.scale)
    have hlt : q.toRat < 10 := by
      rw [toRat]
      calc (q.mantissa : ℚ) * 10 ^ (-q.scale) ≤ |(q.mantissa : ℚ)| * 10 ^ (-q.scale) :=
            mul_le_mul_of_nonneg_right (le_abs_self _) hpos.le
        _ < 10 ^ 32 * 10 ^ (-q.scale) := mul_lt_mul_of_pos_right hsize hpos
        _ ≤ 10 ^ 32 * 10 ^ (-31 : ℤ) := mul_le_mul_of_nonneg_left hpow (by positivity)
        _ = 10 := by norm_num
    linarith
  obtain ⟨j, hj⟩ : ∃ j : ℕ, (j : ℤ) = 30 - q.scale := ⟨(30 - q.scale).toNat, by omega⟩
  have hpositive : 0 ≤ q.mantissa := mantissa_nonneg (by linarith)
  refine ⟨q.mantissa.toNat * 10 ^ j, ?_⟩
  have hcast : ((q.mantissa.toNat : ℤ) : ℚ) = q.mantissa := by rw [Int.toNat_of_nonneg hpositive]
  rw [toRat, show -q.scale = (j : ℤ) - 30 by omega, zpow_sub₀ (by norm_num), zpow_natCast]
  push_cast at hcast ⊢
  rw [hcast]
  norm_num
  ring

/-- The fraction of a number that counts units counts them as well. -/
lemma fract_units {units m : ℕ} (hunits : 0 < units) (h : x.toRat = m / units) :
    ∃ n g : ℕ, g < units ∧ x.fract.toRat = g / units ∧ m = n * units + g := by
  have hpos : (0 : ℚ) < units := by exact_mod_cast hunits
  obtain ⟨n, hsplit, hnonneg, hone⟩ := fract_spec (x := x) (by rw [h]; positivity)
  -- what is left of the units when whole ones are taken away
  have hfract : x.fract.toRat = ((m - n * units : ℤ) : ℚ) / units := by
    rw [eq_sub_of_add_eq' hsplit.symm, h, eq_div_iff hpos.ne', sub_mul, div_mul_cancel₀ _ hpos.ne']
    push_cast
    rfl
  rw [hfract] at hnonneg hone
  have hlow : (0 : ℤ) ≤ m - n * units := by
    have := (le_div_iff₀ hpos).mp hnonneg
    rw [zero_mul] at this
    exact_mod_cast this
  have hhigh : (m - n * units : ℤ) < units := by
    have := (div_lt_one hpos).mp hone
    exact_mod_cast this
  obtain ⟨g, hg⟩ := Int.eq_ofNat_of_zero_le hlow
  refine ⟨n, g, by omega, by rw [hfract, hg, Int.cast_natCast], ?_⟩
  zify
  linarith

/-- The fraction of a quotient from ten on counts units of `10 ^ (-30)` as well. -/
lemma exists_fract_units (hten : 10 ≤ (x / y).toRat) :
    ∃ n g : ℕ, g < 10 ^ 30 ∧ (x / y).fract.toRat = g / 10 ^ 30 ∧
      (x / y).toRat = (n * 10 ^ 30 + g : ℕ) / 10 ^ 30 := by
  obtain ⟨m, hm⟩ := exists_units hten
  obtain ⟨n, g, hlt, hfract, rfl⟩ := fract_units (show 0 < 10 ^ 30 by positivity)
    (show (x / y).toRat = m / (10 ^ 30 : ℕ) by rw [hm]; push_cast; rfl)
  refine ⟨n, g, hlt, ?_, hm⟩
  rw [hfract]
  push_cast
  rfl

/-! ### Zeros of the sums -/

/-- The sums at a quarter, a half and three quarters of a turn are below the threshold. -/
lemma vanishes_at_quarters :
    quarterTurnPlan.vanishes 15707963267948966192313216916398 = true ∧
      halfTurnPlan.vanishes 31415926535897932384626433832795 = true ∧
      threeQuarterTurnPlan.vanishes 47123889803846898576939650749193 = true := by
  decide

/-- At nothing the sum of the sine is below the threshold. -/
lemma abs_sine_sum_lt_of_eq_zero (hzero : x.toRat = 0) :
    |(alternatingSeries x x 2).sum.toRat| < 1 / 10 ^ 30 := by
  obtain ⟨t, ht, ht', hsum⟩ := exists_sum_of_small (x := x)
    (by rw [hzero]; norm_num) hzero.ge (by rw [hzero]; norm_num) (show 0 < 2 by norm_num)
  rw [hsum, hzero, zero_sub, abs_neg, abs_of_nonneg ht]
  exact ht'.trans_lt (by norm_num)

/-- A reduced angle is its fraction of a full turn, up to a rounding. -/
lemma abs_reduceAngle_sub_le (hx : 0 ≤ x.toReal) :
    |(reduceAngle x).toRat - (x / fullTurn).fract.toRat * fullTurn.toRat| ≤ 4 / 10 ^ 31 := by
  obtain ⟨hnonneg, hone, -⟩ := exists_turns hx
  rw [toReal] at hnonneg hone
  have hnonneg' : 0 ≤ (x / fullTurn).fract.toRat := by exact_mod_cast hnonneg
  have hone' : (x / fullTurn).fract.toRat ≤ 1 := by exact_mod_cast hone
  have herror := abs_roundSignificant_sub_le workingDigits_pos
    ((x / fullTurn).fract.toRat * fullTurn.toRat)
  rw [← toRat_reduceAngle, abs_of_nonneg (a := _ * _) (mul_nonneg hnonneg' (by
    rw [toRat_fullTurn]; positivity))] at herror
  refine herror.trans ?_
  rw [toRat_fullTurn, workingDigits]
  norm_num
  linarith

/-- A reduced angle that is near to some units of a full turn is counted by as many units. -/
lemma units_eq {g a : ℕ} {q : ℚ} (hx : 0 ≤ x.toReal) (hfract : (x / fullTurn).fract.toRat = g / 10 ^ 30)
    (hq : |q - a / 10 ^ 30 * fullTurn.toRat| ≤ 1 / 10 ^ 31)
    (hnear : |(reduceAngle x).toRat - q| ≤ 22 / 10 ^ 31) : g = a := by
  have hangle := abs_reduceAngle_sub_le hx
  rw [hfract] at hangle
  rw [toRat_fullTurn, abs_le] at hangle hq
  rw [abs_le] at hnear
  norm_num at hangle hq hnear
  have hlow : (g : ℚ) < a + 1 := by linarith
  have hhigh : (a : ℚ) < g + 1 := by linarith
  have hlow' : g < a + 1 := by exact_mod_cast hlow
  have hhigh' : a < g + 1 := by exact_mod_cast hhigh
  omega

/-- The reduced angle of a simple fraction of a turn. -/
lemma toRat_reduceAngle_of_fract {a b : ℕ} (hb : 0 < b) (h : (x / fullTurn).fract.toRat = a / b)
    (hfull : isFull (nearest (a * 62831853071795864769252867665590) b) = true) :
    (reduceAngle x).toRat = nearest (a * 62831853071795864769252867665590) b / 10 ^ 31 := by
  have hproduct : (a : ℚ) / b * fullTurn.toRat =
      (a * 62831853071795864769252867665590 : ℕ) / b / 10 ^ 31 := by
    rw [toRat_fullTurn]
    push_cast
    ring
  rw [toRat_reduceAngle, h, hproduct]
  exact roundSignificant_of_isFull hb hfull 31

/-- Turns that are counted in units are near to a number of quarters only if they count as many. -/
lemma near_quarters_iff {u : ℕ} {n : ℤ} :
    |(u : ℚ) / 10 ^ 30 - n / 4| ≤ 1 / 10 ^ 31 ↔ 4 * (u : ℤ) = n * 10 ^ 30 := by
  constructor
  · intro hn
    rw [abs_le] at hn
    norm_num at hn
    have hlow : (-1 : ℚ) < 4 * u - n * 10 ^ 30 := by
      norm_num
      linarith
    have hhigh : 4 * (u : ℚ) - n * 10 ^ 30 < 1 := by
      norm_num
      linarith
    have hlow' : (-1 : ℤ) < 4 * u - n * 10 ^ 30 := by exact_mod_cast hlow
    have hhigh' : 4 * (u : ℤ) - n * 10 ^ 30 < 1 := by exact_mod_cast hhigh
    omega
  · intro hsame
    have hsame' : 4 * (u : ℚ) = n * 10 ^ 30 := by exact_mod_cast hsame
    have hexact : (u : ℚ) / 10 ^ 30 - n / 4 = 0 := by
      rw [sub_eq_zero, div_eq_div_iff (by norm_num) (by norm_num)]
      linarith
    rw [hexact]
    norm_num

/-- Turns are near to an odd number of quarters only if they count as many. -/
lemma near_odd_quarters_iff {m g : ℕ} (hlt : g < 10 ^ 30) :
    (∃ n : ℤ, |((m * 10 ^ 30 + g : ℕ) : ℚ) / 10 ^ 30 - (2 * n + 1) / 4| ≤ 1 / 10 ^ 31) ↔
      g = 25 * 10 ^ 28 ∨ g = 75 * 10 ^ 28 := by
  have hquarters : ∀ n : ℤ, (2 * (n : ℚ) + 1) / 4 = ((2 * n + 1 : ℤ) : ℚ) / 4 := by
    intro n
    push_cast
    rfl
  simp only [hquarters, near_quarters_iff]
  constructor
  · rintro ⟨n, hn⟩
    omega
  · rintro (rfl | rfl)
    · exact ⟨2 * m, by omega⟩
    · exact ⟨2 * m + 1, by omega⟩

/-- The same for halves of a turn. -/
lemma near_halves_iff {m g : ℕ} (hlt : g < 10 ^ 30) :
    (∃ n : ℤ, |((m * 10 ^ 30 + g : ℕ) : ℚ) / 10 ^ 30 - n / 2| ≤ 1 / 10 ^ 31) ↔
      g = 0 ∨ g = 5 * 10 ^ 29 := by
  have hquarters : ∀ n : ℤ, (n : ℚ) / 2 = ((2 * n : ℤ) : ℚ) / 4 := by
    intro n
    push_cast
    ring
  simp only [hquarters, near_quarters_iff]
  constructor
  · rintro ⟨n, hn⟩
    omega
  · rintro (rfl | rfl)
    · exact ⟨2 * m, by omega⟩
    · exact ⟨2 * m + 1, by omega⟩

/-- **The cosine from ten turns on** has a small sum exactly where the turns are counted as an odd
number of quarters. -/
theorem cosine_small_iff (hx : 0 ≤ x.toReal) (hten : 10 ≤ (x / fullTurn).toRat) :
    |(alternatingSeries (reduceAngle x) 1 1).sum.toRat| < 1 / 10 ^ 30 ↔
      ∃ n : ℤ, |(x / fullTurn).toRat - (2 * n + 1) / 4| ≤ 1 / 10 ^ 31 := by
  obtain ⟨m, g, hlt, hfract, hturns⟩ := exists_fract_units hten
  rw [hturns, near_odd_quarters_iff hlt]
  constructor
  · intro hsmall
    rcases (cosine_sum_small hx (hsmall.trans (by norm_num))).2 with hnear | hnear
    · refine Or.inl (units_eq hx hfract ?_ (hnear.trans (by norm_num)))
      rw [toRat_fullTurn]
      norm_num [abs_le]
    · refine Or.inr (units_eq hx hfract ?_ (hnear.trans (by norm_num)))
      rw [toRat_fullTurn]
      norm_num [abs_le]
  · rintro (rfl | rfl)
    · refine Plan.abs_sum_lt (p := 0) (Nat.zero_le 1) (toRat_reduceAngle_of_fract (a := 1) (b := 4)
        (by norm_num) (by rw [hfract]; norm_num) (by decide)) (by simp) vanishes_at_quarters.1
    · refine Plan.abs_sum_lt (p := 0) (Nat.zero_le 1) (toRat_reduceAngle_of_fract (a := 3) (b := 4)
        (by norm_num) (by rw [hfract]; norm_num) (by decide)) (by simp) vanishes_at_quarters.2.2

/-- **The sine from ten turns on** has a small sum exactly where the turns are counted as a whole
number of halves. -/
theorem sine_small_iff (hx : 0 ≤ x.toReal) (hten : 10 ≤ (x / fullTurn).toRat) :
    |(alternatingSeries (reduceAngle x) (reduceAngle x) 2).sum.toRat| < 1 / 10 ^ 30 ↔
      ∃ n : ℤ, |(x / fullTurn).toRat - n / 2| ≤ 1 / 10 ^ 31 := by
  obtain ⟨m, g, hlt, hfract, hturns⟩ := exists_fract_units hten
  rw [hturns, near_halves_iff hlt]
  constructor
  · intro hsmall
    rcases sine_sum_small hx (hsmall.trans (by norm_num)) with htiny | ⟨-, hnear | hnear⟩
    · have hnonneg : 0 ≤ (reduceAngle x).toRat := Rat.cast_nonneg.mp (reduceAngle_spec hx).1
      refine Or.inl (units_eq (q := 0) hx hfract ?_ ?_)
      · simp
      · rwa [sub_zero, abs_of_nonneg hnonneg]
    · refine Or.inr (units_eq hx hfract ?_ (hnear.trans (by norm_num)))
      rw [toRat_fullTurn]
      norm_num [abs_le]
    · -- a full turn is not left over
      have hfull : g = 10 ^ 30 := by
        refine units_eq hx hfract ?_ (hnear.trans (by norm_num))
        rw [toRat_fullTurn]
        norm_num [abs_le]
      exact absurd hfull hlt.ne
  · rintro (rfl | rfl)
    · refine abs_sine_sum_lt_of_eq_zero ?_
      rw [toRat_reduceAngle, hfract, Nat.cast_zero, zero_div, zero_mul, roundSignificant_zero]
    · refine Plan.abs_sum_lt (p := 1) le_rfl (toRat_reduceAngle_of_fract (a := 1) (b := 2)
        (by norm_num) (by rw [hfract]; norm_num) (by decide)) (by simp) vanishes_at_quarters.2.1

/-! ### Whole degrees -/

/-- A larger angle counts more turns. -/
lemma turns_mono (h : |x.toRat| ≤ |y.toRat|) : (turns x).toRat ≤ (turns y).toRat := by
  have hturn : 0 ≤ fullTurn.toRat := by rw [toRat_fullTurn]; positivity
  rw [turns, turns, toRat_div, toRat_div]
  refine roundSignificant_mono workingDigits_pos (div_le_div_of_nonneg_right ?_ hturn)
  rw [toRat_abs, toRat_abs, toRadians, toRadians, toRat_mul, toRat_mul, abs_roundSignificant,
    abs_roundSignificant, abs_mul, abs_mul]
  exact roundSignificant_mono workingDigits_pos (mul_le_mul_of_nonneg_right h (abs_nonneg _))

/-- Angles of one size count the same turns. -/
lemma toRat_turns_congr (h : |x.toRat| = |y.toRat|) : (turns x).toRat = (turns y).toRat :=
  le_antisymm (turns_mono h.le) (turns_mono h.ge)

/-- Whether a sum is found to vanish at a multiple of a right angle: that of the sine at an even one,
which is reduced to nothing or to half a turn, and that of the cosine at an odd one. -/
def vanishesAtRightAngles (i : ℕ) : Bool :=
  let angle := reduceAngle (toRadians (ofInt (90 * i))).abs
  if i % 2 = 0 then angle.isZero || halfTurnPlan.vanishesAt angle
  else quarterTurnPlan.vanishesAt angle || threeQuarterTurnPlan.vanishesAt angle

/-- The first multiples of a right angle are counted as such, and up to ten turns the sums vanish. -/
lemma rightAngles_spec : ∀ i : Fin 64,
    (turns (ofInt (90 * (i : ℕ))) - ⟨25 * (i : ℕ), 2⟩).abs ≤ ⟨1, 31⟩ ∧
      ((i : ℕ) < 41 → vanishesAtRightAngles i = true) := by
  decide +kernel

/-- The turns of the first multiples of a right angle. -/
lemma abs_turns_sub_le {i : ℕ} (hi : i < 64) : |(turns (ofInt (90 * i))).toRat - i / 4| ≤ 1 / 10 ^ 31 := by
  have hnear := (rightAngles_spec ⟨i, hi⟩).1
  have hquarters : (⟨25 * i, 2⟩ : Decimal).toRat = i / 4 := by
    norm_num [toRat, zpow_neg]
    ring
  rw [le_iff, toRat_abs, toRat_sub, hquarters] at hnear
  exact hnear.trans (by norm_num [toRat, zpow_neg])

/-- From 3690 degrees on, there are ten turns. -/
lemma ten_le_turns (h : 3690 ≤ |x.toRat|) : 10 ≤ (turns x).toRat := by
  have hnear := abs_turns_sub_le (show 41 < 64 by norm_num)
  have hless : (turns (ofInt 3690)).toRat ≤ (turns x).toRat := turns_mono (by simpa using h)
  rw [abs_le] at hnear
  norm_num at hnear ⊢
  linarith

/-- The size of an angle in degrees decides on whether its cosine is zero. -/
lemma cos_toRadians_congr (h : |x.toRat| = |y.toRat|) :
    (cos (toRadians x)).toRat = (cos (toRadians y)).toRat :=
  equiv_iff.mp (flush_congr (alternatingSeries_congr
    (reduceAngle_congr (abs_toRadians_congr h)) (equiv_refl 1) 1).sum_congr)

/-- The size of an angle in degrees decides on whether its sine is zero. -/
lemma sin_toRadians_eq_zero_congr (h : |x.toRat| = |y.toRat|) :
    (sin (toRadians x)).toRat = 0 ↔ (sin (toRadians y)).toRat = 0 := by
  have hangle := reduceAngle_congr (abs_toRadians_congr h)
  have hsum := (alternatingSeries_congr hangle hangle 2).sum_congr
  rw [sin_eq_zero_iff, sin_eq_zero_iff, equiv_iff.mp hsum]

/-- Up to ten turns the odd multiples of a right angle have no cosine. -/
lemma cos_rightAngles {i : ℕ} (hi : i < 41) (hodd : i % 2 = 1) :
    (cos (toRadians (ofInt (90 * i)))).toRat = 0 := by
  have hvanishes := (rightAngles_spec ⟨i, by omega⟩).2 hi
  simp only [vanishesAtRightAngles, hodd, one_ne_zero, if_false, Bool.or_eq_true] at hvanishes
  rw [cos_eq_zero_iff]
  rcases hvanishes with h | h <;>
    exact Plan.abs_sum_lt_of_vanishesAt (p := 0) (Nat.zero_le 1) (by simp) h

/-- Up to ten turns the even multiples of a right angle have no sine. -/
lemma sin_rightAngles {i : ℕ} (hi : i < 41) (heven : i % 2 = 0) :
    (sin (toRadians (ofInt (90 * i)))).toRat = 0 := by
  have hvanishes := (rightAngles_spec ⟨i, by omega⟩).2 hi
  simp only [vanishesAtRightAngles, heven, if_true, Bool.or_eq_true] at hvanishes
  rw [sin_eq_zero_iff]
  rcases hvanishes with h | h
  · exact abs_sine_sum_lt_of_eq_zero ((isZero_iff _).mp h)
  · exact Plan.abs_sum_lt_of_vanishesAt (p := 1) le_rfl (by simp) h

/-- Multiples of a right angle that are opposite to each other have the same size. -/
lemma abs_eq_rightAngles {k : ℤ} (hx : x.toRat = 90 * k) :
    |x.toRat| = |(ofInt (90 * k.natAbs)).toRat| := by
  rw [hx, toRat_ofInt, Int.natCast_natAbs]
  push_cast
  rw [abs_mul, abs_mul, abs_abs]

/-- The turns of an angle count as an odd number of quarters. -/
def CountsOddQuarters (x : Decimal) : Prop := ∃ n : ℤ, |(turns x).toRat - (2 * n + 1) / 4| ≤ 1 / 10 ^ 31

/-- The turns of an angle count as a whole number of halves. -/
def CountsHalves (x : Decimal) : Prop := ∃ n : ℤ, |(turns x).toRat - n / 2| ≤ 1 / 10 ^ 31

/-- **Odd multiples of a right angle** up to 5670 degrees are counted right. -/
lemma countsOddQuarters_of_lt {k : ℤ} (hx : x.toRat = 90 * (2 * k + 1)) (hlow : -32 ≤ k) (hhigh : k < 32) :
    CountsOddQuarters x := by
  have hsize := abs_eq_rightAngles (k := 2 * k + 1) (by push_cast; exact hx)
  have hnear := abs_turns_sub_le (show (2 * k + 1).natAbs < 64 by omega)
  obtain ⟨n, hn⟩ : ∃ n : ℤ, ((2 * k + 1).natAbs : ℤ) = 2 * n + 1 :=
    ⟨((2 * k + 1).natAbs - 1) / 2, by omega⟩
  have hcast : ((2 * k + 1).natAbs : ℚ) = 2 * n + 1 := by
    rw [← Int.cast_natCast, hn]
    push_cast
    rfl
  refine ⟨n, ?_⟩
  rw [toRat_turns_congr hsize, ← hcast]
  exact hnear

/-- **Multiples of a straight angle** up to 5580 degrees are counted right. -/
lemma countsHalves_of_lt {k : ℤ} (hx : x.toRat = 180 * k) (hless : |k| < 32) : CountsHalves x := by
  have hsize := abs_eq_rightAngles (k := 2 * k) (by push_cast; linarith)
  rw [Int.abs_eq_natAbs] at hless
  have hnear := abs_turns_sub_le (show (2 * k).natAbs < 64 by omega)
  have hcast : ((2 * k).natAbs : ℚ) / 4 = (k.natAbs : ℤ) / 2 := by
    rw [Int.natAbs_mul, Int.cast_natCast, Nat.cast_mul]
    norm_num
    ring
  refine ⟨k.natAbs, ?_⟩
  rw [toRat_turns_congr hsize, ← hcast]
  exact hnear

/-- From the 41st multiple of a right angle on, there are ten turns. -/
lemma ten_le_turns_of_le {k : ℤ} (hx : x.toRat = 90 * k) (h : 41 ≤ k.natAbs) : 10 ≤ (turns x).toRat := by
  refine ten_le_turns ?_
  have hmore : (41 : ℚ) ≤ k.natAbs := by exact_mod_cast h
  rw [abs_eq_rightAngles hx, toRat_ofInt, abs_of_nonneg (by positivity)]
  rw [Nat.cast_natAbs] at hmore
  push_cast at hmore ⊢
  linarith

/-- **The cosine of an odd multiple of a right angle** is zero exactly where its turns are counted
right. -/
theorem cos_toRadians_eq_zero_iff {k : ℤ} (hx : x.toRat = 90 * (2 * k + 1)) :
    (cos (toRadians x)).toRat = 0 ↔ CountsOddQuarters x := by
  have hmultiple : x.toRat = 90 * (2 * k + 1 : ℤ) := by
    push_cast
    exact hx
  rcases lt_or_ge (2 * k + 1).natAbs 41 with hless | hmore
  · refine iff_of_true ?_ (countsOddQuarters_of_lt hx (by omega) (by omega))
    rw [cos_toRadians_congr (abs_eq_rightAngles hmultiple)]
    exact cos_rightAngles hless (by omega)
  · rw [cos_eq_zero_iff]
    exact cosine_small_iff (by simp [toReal_abs]) (ten_le_turns_of_le hmultiple hmore)

/-- **The sine of a multiple of a straight angle** is zero exactly where its turns are counted
right. -/
theorem sin_toRadians_eq_zero_iff {k : ℤ} (hx : x.toRat = 180 * k) :
    (sin (toRadians x)).toRat = 0 ↔ CountsHalves x := by
  have hmultiple : x.toRat = 90 * (2 * k : ℤ) := by
    push_cast
    linarith
  rcases lt_or_ge (2 * k).natAbs 41 with hless | hmore
  · refine iff_of_true ?_ (countsHalves_of_lt hx (by rw [Int.abs_eq_natAbs]; omega))
    rw [sin_toRadians_eq_zero_congr (abs_eq_rightAngles hmultiple)]
    exact sin_rightAngles hless (by omega)
  · rw [sin_eq_zero_iff]
    exact sine_small_iff (by simp [toReal_abs]) (ten_le_turns_of_le hmultiple hmore)

/-! ### Poles -/

/-- A quotient is refused exactly where the divisor is zero. -/
lemma quotientOr_eq_error_iff {undefined failure : Failure} :
    quotientOr undefined x y = .error failure ↔ failure = undefined ∧ y.toRat = 0 := by
  rw [quotientOr, quotient?]
  cases hzero : y.isZero
  · simp [(isZero_eq_false_iff y).mp hzero]
  · simp [(isZero_iff y).mp hzero, eq_comm]

/-- **The poles in degrees.** At the odd multiples of a right angle tangent and secant are refused, and
at the multiples of a straight angle cosecant and cotangent, exactly where the turns are counted right,
and each with a failure of its own. Up to 32 of them on either side are counted right. -/
theorem degree_poles (k : ℤ) (hx : x.toRat = 90 * (2 * k + 1)) (hy : y.toRat = 180 * k)
    (failure : Failure) :
    (Function.tan.apply .degrees x = .error failure ↔
        failure = .tanUndefined ∧ CountsOddQuarters x) ∧
      (Function.sec.apply .degrees x = .error failure ↔
        failure = .secUndefined ∧ CountsOddQuarters x) ∧
      (Function.csc.apply .degrees y = .error failure ↔ failure = .cscUndefined ∧ CountsHalves y) ∧
      (Function.cot.apply .degrees y = .error failure ↔ failure = .cotUndefined ∧ CountsHalves y) ∧
      (-32 ≤ k → k < 32 → CountsOddQuarters x) ∧ (|k| < 32 → CountsHalves y) := by
  have hcos := cos_toRadians_eq_zero_iff hx
  have hsin := sin_toRadians_eq_zero_iff hy
  refine ⟨?_, ?_, ?_, ?_, countsOddQuarters_of_lt hx, countsHalves_of_lt hy⟩
  · rw [Function.apply_of_takesAngle rfl, Function.inRadians, tan, quotientOr_eq_error_iff, ← hcos]
    rfl
  · rw [Function.apply_of_takesAngle rfl, Function.inRadians, sec, quotientOr_eq_error_iff, ← hcos]
    rfl
  · rw [Function.apply_of_takesAngle rfl, Function.inRadians, csc, quotientOr_eq_error_iff, ← hsin]
    rfl
  · rw [Function.apply_of_takesAngle rfl, Function.inRadians, cot, quotientOr_eq_error_iff, ← hsin]
    rfl

/-- At minus 5490 and minus 5580 degrees all four are refused. -/
theorem degree_poles_far_below_zero :
    (ofInt (-5490)).toRat = 90 * (2 * (-31 : ℤ) + 1) ∧ (ofInt (-5580)).toRat = 180 * (-31 : ℤ) ∧
      Function.tan.apply .degrees (ofInt (-5490)) = .error .tanUndefined ∧
      Function.sec.apply .degrees (ofInt (-5490)) = .error .secUndefined ∧
      Function.csc.apply .degrees (ofInt (-5580)) = .error .cscUndefined ∧
      Function.cot.apply .degrees (ofInt (-5580)) = .error .cotUndefined := by
  have hx : (ofInt (-5490)).toRat = 90 * (2 * (-31 : ℤ) + 1) := by norm_num
  have hy : (ofInt (-5580)).toRat = 180 * (-31 : ℤ) := by norm_num
  have hpoles := degree_poles (-31) hx hy
  obtain ⟨-, -, -, -, hquarters, hhalves⟩ := hpoles .tanUndefined
  have hquarters' := hquarters (by norm_num) (by norm_num)
  have hhalves' := hhalves (by norm_num)
  exact ⟨hx, hy, (hpoles _).1.mpr ⟨rfl, hquarters'⟩, (hpoles _).2.1.mpr ⟨rfl, hquarters'⟩,
    (hpoles _).2.2.1.mpr ⟨rfl, hhalves'⟩, (hpoles _).2.2.2.1.mpr ⟨rfl, hhalves'⟩⟩

/-- **Not all poles are reported**: the tangent of 5850 degrees has a value. -/
theorem not_forall_degree_poles :
    ¬ ∀ (k : ℤ) (x y : Decimal), x.toRat = 90 * (2 * k + 1) → y.toRat = 180 * k →
      Function.tan.apply .degrees x = .error .tanUndefined ∧
        Function.sec.apply .degrees x = .error .secUndefined ∧
        Function.csc.apply .degrees y = .error .cscUndefined ∧
        Function.cot.apply .degrees y = .error .cotUndefined := by
  intro h
  have htan := (h 32 (ofInt 5850) (ofInt 5760) (by norm_num) (by norm_num)).1
  rw [Function.apply_of_takesAngle rfl, Function.inRadians, tan, quotientOr_eq_error_iff] at htan
  have hcosine : (cos (AngleMode.degrees.angle (ofInt 5850))).isZero = false := by decide +kernel
  exact (isZero_eq_false_iff _).mp hcosine htan.2

end DecimalCalculator.Elementary
