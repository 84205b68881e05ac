import DecimalCalculator.Decimal.Arithmetic
import DecimalCalculator.Proofs.Decimal.Value

/-!
How far rounding moves a number.

* `divideHalfAway_eq`: the nearest integer to a quotient, in natural numbers.
* `Decimal.place`: the value of the last digit that rounding keeps. `Decimal.round_eq`: a rounded
  number is a whole multiple of it.
* `Decimal.round_le_add`, `Decimal.lt_round_add`: **rounding** moves a number by at most half of
  that value, and a half goes away from zero. `Decimal.abs_round_sub_le` is the relative form.
* `Decimal.le_round`, `Decimal.round_le`: rounding does not cross a power of ten.
* `Decimal.abs_mul_sub_le`, `Decimal.abs_div_sub_le`: **the error of products and quotients**.
* `Decimal.powerLoop_induction`: what single rounded products keep, **repeated squaring** keeps.
  `Decimal.PowerCases`, `Decimal.power?_cases`: how an integer power comes about.
-/

namespace DecimalCalculator

/-! ### Nearest integers -/

/-- Half of the divisor added, the quotient of natural numbers is the nearest one. -/
lemma add_half_div (m : ℕ) {d : ℕ} (hd : 0 < d) :
    (2 * m + d) / (2 * d) = if d ≤ 2 * (m % d) then m / d + 1 else m / d := by
  have hmod : m % d < d := Nat.mod_lt m hd
  have hsplit : 2 * m + d = 2 * (m % d) + d + 2 * d * (m / d) := by
    have := Nat.mod_add_div m d
    linarith
  rw [hsplit, Nat.add_mul_div_left _ _ (by omega)]
  split
  · next h =>
    have hone : (2 * (m % d) + d) / (2 * d) = 1 := Nat.div_eq_of_lt_le (by omega) (by omega)
    rw [hone, add_comm]
  · next h => rw [Nat.div_eq_of_lt (by omega), zero_add]

/-- The quotient rounded to the nearest integer has the sign of the dividend, and its size is the
quotient of the sizes with half of the divisor added. -/
lemma divideHalfAway_eq (n : ℤ) {d : ℕ} (hd : 0 < d) :
    divideHalfAway n d = n.sign * ((2 * n.natAbs + d) / (2 * d) : ℕ) := by
  have hrest : (n.tmod d).natAbs = n.natAbs % d := by rw [Int.natAbs_tmod, Int.natAbs_natCast]
  have hwhole : n.tdiv d = n.sign * (n.natAbs / d : ℕ) := by
    conv_lhs => rw [← Int.sign_mul_natAbs n]
    rcases lt_trichotomy n 0 with h | h | h
    · rw [Int.sign_eq_neg_one_of_neg h, neg_one_mul, neg_one_mul, Int.neg_tdiv, Int.ofNat_tdiv]
    · simp [h]
    · rw [Int.sign_eq_one_of_pos h, one_mul, one_mul, Int.ofNat_tdiv]
  rw [divideHalfAway, hrest, hwhole, add_half_div _ hd]
  rcases lt_trichotomy n 0 with h | h | h
  · rw [Int.sign_eq_neg_one_of_neg h]
    split
    · push_cast
      ring
    · rfl
  · subst h
    have hsmall : ¬ d ≤ 2 * ((0 : ℤ).natAbs % d) := by simp; omega
    rw [if_neg hsmall, if_neg hsmall]
  · rw [Int.sign_eq_one_of_pos h]
    split
    · rw [if_neg h.not_gt]
      push_cast
      ring
    · rfl

/-- The size of the nearest integer. -/
lemma natAbs_divideHalfAway (n : ℤ) {d : ℕ} (hd : 0 < d) :
    (divideHalfAway n d).natAbs = (2 * n.natAbs + d) / (2 * d) := by
  rw [divideHalfAway_eq n hd, Int.natAbs_mul, Int.natAbs_natCast]
  rcases eq_or_ne n 0 with rfl | h
  · have hhalf : (2 * (0 : ℤ).natAbs + d) / (2 * d) = 0 := by
      rw [Int.natAbs_zero, mul_zero, zero_add]
      exact Nat.div_eq_of_lt (by omega)
    rw [hhalf, mul_zero]
  · rw [Int.natAbs_sign_of_ne_zero h, one_mul]

namespace Decimal

variable {x y : Decimal} {digits : ℕ}

/-! ### Rounding -/

/-- The value of the last digit that rounding to some digits keeps. -/
def place (x : Decimal) (digits : ℕ) : ℚ := 10 ^ (x.magnitude + 1 - digits)

lemma place_pos (x : Decimal) (digits : ℕ) : 0 < x.place digits := zpow_ten_pos _

/-- What holds no more digits is not rounded. -/
lemma round_of_le (h : x.precision ≤ digits) : x.round digits = x := by
  rw [round, if_pos h]

/-- The last kept place is as many places before the last digit as digits are dropped. -/
lemma place_eq (h : digits < x.precision) :
    x.place digits = (10 ^ (x.precision - digits) : ℕ) * 10 ^ (-x.scale) := by
  have hexponent : x.magnitude + 1 - digits = ((x.precision - digits : ℕ) : ℤ) + -x.scale := by
    rw [magnitude]
    omega
  rw [place, hexponent, zpow_add₀ (by norm_num), zpow_natCast]
  norm_num

/-- Rounding up to one digit too many gives a power of ten. -/
lemma natAbs_rounded_le (h : digits < x.precision) :
    (divideHalfAway x.mantissa (10 ^ (x.precision - digits))).natAbs ≤ 10 ^ digits := by
  have hd : 0 < 10 ^ (x.precision - digits) := by positivity
  have hlt : x.mantissa.natAbs < 10 ^ digits * 10 ^ (x.precision - digits) := by
    rw [← pow_add, Nat.add_sub_cancel' h.le]
    exact lt_pow_digitCount _
  rw [natAbs_divideHalfAway _ hd, ← Nat.lt_succ_iff, Nat.div_lt_iff_lt_mul (by omega)]
  rw [Nat.succ_eq_add_one, add_mul]
  linarith

/-- **A rounded number** is the nearest multiple of the last kept place. -/
theorem round_eq (hdigits : 0 < digits) (h : digits < x.precision) :
    (x.round digits).toRat =
      divideHalfAway x.mantissa (10 ^ (x.precision - digits)) * x.place digits := by
  rw [round, if_neg (not_le.mpr h)]
  simp only [Nat.pow_eq]
  set rounded := divideHalfAway x.mantissa (10 ^ (x.precision - digits)) with hrounded
  have hplace : x.place digits = 10 ^ (-(x.scale - (x.precision - digits : ℕ))) := by
    rw [place, magnitude]
    congr 1
    omega
  split
  · next hextra =>
    -- the dropped digit is a zero
    have hsize : rounded.natAbs = 10 ^ digits := by
      refine le_antisymm (natAbs_rounded_le h) ?_
      by_contra hlt
      exact absurd ((digitCount_le_iff hdigits).mpr (not_le.mp hlt)) (not_le.mpr hextra)
    have hdvd : (10 : ℤ) ∣ rounded := by
      refine Int.natCast_dvd.mpr ?_
      rw [hsize]
      exact dvd_pow_self 10 hdigits.ne'
    obtain ⟨k, hk⟩ := hdvd
    rw [toRat, hplace, hk, Int.mul_tdiv_cancel_left _ (by norm_num)]
    rw [show -(x.scale - ((x.precision - digits : ℕ) : ℤ) - 1) =
      -(x.scale - ((x.precision - digits : ℕ) : ℤ)) + 1 by ring, zpow_add₀ (by norm_num)]
    push_cast
    ring
  · rw [toRat, hplace]

/-- Negation changes no digit. -/
lemma precision_neg (x : Decimal) : (-x).precision = x.precision := by
  rw [precision, precision, show (-x).mantissa = -x.mantissa from rfl, Int.natAbs_neg]

/-- Negation moves no digit. -/
lemma magnitude_neg (x : Decimal) : (-x).magnitude = x.magnitude := by
  rw [magnitude, magnitude, precision_neg]
  rfl

/-- Rounding commutes with the sign. -/
lemma toRat_round_neg (hdigits : 0 < digits) (x : Decimal) :
    ((-x).round digits).toRat = -(x.round digits).toRat := by
  rcases le_or_gt x.precision digits with h | h
  · rw [round_of_le h, round_of_le ((precision_neg x).trans_le h), toRat_neg]
  · have hd : 0 < 10 ^ (x.precision - digits) := by positivity
    have hplace : (-x).place digits = x.place digits := by
      rw [place, place, magnitude_neg]
    rw [round_eq hdigits h, round_eq hdigits (h.trans_eq (precision_neg x).symm), hplace,
      precision_neg, show (-x).mantissa = -x.mantissa from rfl, divideHalfAway_eq _ hd, divideHalfAway_eq _ hd,
      Int.sign_neg, Int.natAbs_neg]
    push_cast
    ring

/-- Rounding keeps at most the digits that it is told to keep. -/
lemma precision_round_le (hdigits : 0 < digits) (x : Decimal) :
    (x.round digits).precision ≤ digits := by
  rw [round]
  split
  · assumption
  · next h =>
    have h := not_le.mp h
    simp only [Nat.pow_eq]
    split
    · rw [precision, digitCount_le_iff hdigits, Int.natAbs_tdiv]
      have hle := natAbs_rounded_le h
      have hpos : 0 < 10 ^ digits := by positivity
      change _ / 10 < _
      omega
    · next hfits => exact not_lt.mp hfits

section Nonneg

variable (hdigits : 0 < digits) (hx : 0 ≤ x.toRat)

include hdigits hx

/-- A rounded number is a multiple of the last kept place, nearest to the number, the larger one
of two. -/
lemma exists_multiple (h : digits < x.precision) :
    ∃ q : ℕ, (x.round digits).toRat = q * x.place digits ∧
      q * x.place digits ≤ x.toRat + x.place digits / 2 ∧
      x.toRat < q * x.place digits + x.place digits / 2 := by
  have hd : 0 < 10 ^ (x.precision - digits) := by positivity
  obtain ⟨m, hm⟩ := Int.eq_ofNat_of_zero_le (mantissa_nonneg hx)
  have hq : divideHalfAway x.mantissa (10 ^ (x.precision - digits)) =
      ((2 * m + 10 ^ (x.precision - digits)) / (2 * 10 ^ (x.precision - digits)) : ℕ) := by
    rw [divideHalfAway_eq _ hd, hm, Int.natAbs_natCast]
    rcases Nat.eq_zero_or_pos m with rfl | hpos
    · rw [mul_zero, zero_add, Nat.div_eq_of_lt (by omega)]
      simp
    · rw [Int.sign_eq_one_of_pos (by exact_mod_cast hpos), one_mul]
  set d := 10 ^ (x.precision - digits) with hdef
  set q := (2 * m + d) / (2 * d) with hqdef
  have hunit : 0 < (10 : ℚ) ^ (-x.scale) := zpow_ten_pos _
  have hplace : x.place digits = d * 10 ^ (-x.scale) := by rw [place_eq h]
  have hvalue : x.toRat = m * 10 ^ (-x.scale) := by rw [toRat, hm, Int.cast_natCast]
  have hlow : (2 * d * q : ℚ) ≤ 2 * m + d := by
    have := Nat.mul_div_le (2 * m + d) (2 * d)
    exact_mod_cast this
  have hhigh : (2 * m + d : ℚ) < 2 * d * (q + 1) := by
    have := Nat.lt_mul_div_succ (2 * m + d) (show 0 < 2 * d by omega)
    exact_mod_cast this
  refine ⟨q, by rw [round_eq hdigits h, hq, Int.cast_natCast], ?_, ?_⟩
  · rw [hplace, hvalue]
    nlinarith
  · rw [hplace, hvalue]
    nlinarith

/-- **Rounding** adds at most half of the last kept place. -/
theorem round_le_add : (x.round digits).toRat ≤ x.toRat + x.place digits / 2 := by
  rcases le_or_gt x.precision digits with h | h
  · rw [round_of_le h]
    have := place_pos x digits
    linarith
  · obtain ⟨q, hq, hle, -⟩ := exists_multiple hdigits hx h
    rw [hq]
    exact hle

/-- **Rounding** takes less than half of the last kept place away. -/
theorem lt_round_add : x.toRat < (x.round digits).toRat + x.place digits / 2 := by
  rcases le_or_gt x.precision digits with h | h
  · rw [round_of_le h]
    have := place_pos x digits
    linarith
  · obtain ⟨q, hq, -, hlt⟩ := exists_multiple hdigits hx h
    rw [hq]
    exact hlt

/-- A multiple of the last kept place that the number reaches is reached after rounding. -/
lemma multiple_le_round (h : digits < x.precision) {n : ℕ} (hn : n * x.place digits ≤ x.toRat) :
    n * x.place digits ≤ (x.round digits).toRat := by
  obtain ⟨q, hq, -, hlt⟩ := exists_multiple hdigits hx h
  have hpos := place_pos x digits
  have hnq : (n : ℚ) < q + 1 := by nlinarith
  have : n ≤ q := by
    have : n < q + 1 := by exact_mod_cast hnq
    omega
  rw [hq]
  exact mul_le_mul_of_nonneg_right (by exact_mod_cast this) hpos.le

/-- A multiple of the last kept place that the number does not exceed is not exceeded after
rounding. -/
lemma round_le_multiple (h : digits < x.precision) {n : ℕ} (hn : x.toRat ≤ n * x.place digits) :
    (x.round digits).toRat ≤ n * x.place digits := by
  obtain ⟨q, hq, hle, -⟩ := exists_multiple hdigits hx h
  have hpos := place_pos x digits
  have hqn : (q : ℚ) < n + 1 := by nlinarith
  have : q ≤ n := by
    have : q < n + 1 := by exact_mod_cast hqn
    omega
  rw [hq]
  exact mul_le_mul_of_nonneg_right (by exact_mod_cast this) hpos.le

/-- Rounding keeps a number that reaches a power of ten there. -/
theorem le_round {k : ℤ} (hk : 10 ^ k ≤ x.toRat) : 10 ^ k ≤ (x.round digits).toRat := by
  rcases le_or_gt x.precision digits with h | h
  · rwa [round_of_le h]
  · -- the power of ten is a multiple of the last place, or below it
    have hne : x.toRat ≠ 0 := ((zpow_ten_pos k).trans_le hk).ne'
    have hmultiple : ∀ j : ℕ, x.magnitude + 1 - digits + j = k →
        10 ^ k ≤ (x.round digits).toRat := by
      rintro j rfl
      have hj : (10 : ℚ) ^ (x.magnitude + 1 - digits + j : ℤ) = (10 ^ j : ℕ) * x.place digits := by
        rw [zpow_add₀ (by norm_num), zpow_natCast, place]
        push_cast
        ring
      rw [hj] at hk ⊢
      exact multiple_le_round hdigits hx h hk
    rcases le_or_gt (x.magnitude + 1 - digits) k with hle | hgt
    · exact hmultiple (k - (x.magnitude + 1 - digits)).toNat (by omega)
    · have hunit : (1 : ℕ) * x.place digits ≤ x.toRat := by
        rw [Nat.cast_one, one_mul, place]
        have hsize := zpow_magnitude_le hne
        rw [abs_of_nonneg hx] at hsize
        exact (zpow_le_zpow_right₀ (by norm_num) (by omega)).trans hsize
      have := multiple_le_round hdigits hx h hunit
      rw [Nat.cast_one, one_mul, place] at this
      exact (zpow_le_zpow_right₀ (by norm_num) hgt.le).trans this

/-- Rounding keeps a number that does not exceed a power of ten there. -/
theorem round_le {k : ℤ} (hk : x.toRat ≤ 10 ^ k) : (x.round digits).toRat ≤ 10 ^ k := by
  rcases le_or_gt x.precision digits with h | h
  · rwa [round_of_le h]
  · have hpos : 0 < x.precision - 1 := by omega
    have hne : x.toRat ≠ 0 := by
      intro hzero
      have hone := precision_of_toRat_eq_zero hzero
      omega
    have hsize := zpow_magnitude_le hne
    rw [abs_of_nonneg hx] at hsize
    have hle : x.magnitude ≤ k := (zpow_le_zpow_iff_right₀ (by norm_num)).mp (hsize.trans hk)
    obtain ⟨j, hj⟩ : ∃ j : ℕ, x.magnitude + 1 - digits + j = k :=
      ⟨(k - (x.magnitude + 1 - digits)).toNat, by omega⟩
    have hmultiple : (10 : ℚ) ^ k = (10 ^ j : ℕ) * x.place digits := by
      rw [← hj, zpow_add₀ (by norm_num), zpow_natCast, place]
      push_cast
      ring
    rw [hmultiple] at hk ⊢
    exact round_le_multiple hdigits hx h hk

end Nonneg

/-- **The relative error of rounding** is half a unit in the last digit that is kept. -/
theorem abs_round_sub_le (hdigits : 0 < digits) (x : Decimal) :
    |(x.round digits).toRat - x.toRat| ≤ |x.toRat| / (2 * 10 ^ (digits - 1)) := by
  -- a number that is not negative
  have nonneg : ∀ x : Decimal, 0 ≤ x.toRat →
      |(x.round digits).toRat - x.toRat| ≤ |x.toRat| / (2 * 10 ^ (digits - 1)) := by
    intro x hx
    rcases eq_or_ne x.toRat 0 with hzero | hne
    · have hone := precision_of_toRat_eq_zero hzero
      rw [round_of_le (by omega), sub_self, hzero]
      simp
    · have hplace : x.place digits ≤ |x.toRat| / 10 ^ (digits - 1) := by
        rw [le_div_iff₀ (by positivity), place, ← zpow_natCast, ← zpow_add₀ (by norm_num)]
        have hexponent : x.magnitude + 1 - digits + (digits - 1 : ℕ) = x.magnitude := by omega
        rw [hexponent]
        exact zpow_magnitude_le hne
      have hle := round_le_add hdigits hx
      have hlt := lt_round_add hdigits hx
      rw [mul_comm, ← div_div, abs_le]
      constructor <;> linarith
  rcases le_or_gt 0 x.toRat with hx | hx
  · exact nonneg x hx
  · have := nonneg (-x) (by rw [toRat_neg]; linarith)
    rw [toRat_round_neg hdigits, toRat_neg, abs_neg, neg_sub_neg, abs_sub_comm] at this
    exact this

/-- A number between zero and one is a proper decimal fraction. -/
lemma exists_fraction (hpos : 0 < x.toRat) (hlt : x.toRat < 1) :
    ∃ m s : ℕ, x.toRat = m / 10 ^ s ∧ m < 10 ^ s ∧ m < 10 ^ x.precision := by
  obtain ⟨m, hm⟩ := Int.eq_ofNat_of_zero_le (mantissa_nonneg hpos.le)
  have hmantissa : (1 : ℚ) ≤ x.mantissa := by
    have := mantissa_ne_zero hpos.ne'
    have : 1 ≤ x.mantissa := by omega
    exact_mod_cast this
  have hscale : 0 ≤ x.scale := by
    by_contra hneg
    have hge : (1 : ℚ) ≤ 10 ^ (-x.scale) := one_le_zpow₀ (by norm_num) (by omega)
    rw [toRat] at hlt
    nlinarith
  obtain ⟨s, hs⟩ := Int.eq_ofNat_of_zero_le hscale
  have hvalue : x.toRat = m / 10 ^ s := by
    rw [toRat, hm, hs, zpow_neg, zpow_natCast, Int.cast_natCast, div_eq_mul_inv]
  refine ⟨m, s, hvalue, ?_, ?_⟩
  · rw [hvalue, div_lt_one (by positivity)] at hlt
    exact_mod_cast hlt
  · have hdigits := lt_pow_digitCount x.mantissa.natAbs
    rw [precision]
    rwa [hm, Int.natAbs_natCast] at hdigits ⊢

/-- What has at most some digits and is below one keeps a distance of one unit in the last digit
from it. -/
lemma le_one_sub (hprecision : x.precision ≤ digits) (h : x.toRat < 1) :
    x.toRat ≤ 1 - 1 / 10 ^ digits := by
  rcases le_or_gt x.toRat 0 with hneg | hpos
  · have : (1 : ℚ) / 10 ^ digits ≤ 1 := by
      rw [div_le_one (by positivity)]
      exact one_le_pow₀ (by norm_num)
    linarith
  obtain ⟨m, s, hvalue, hlt, hdigits⟩ := exists_fraction hpos h
  rw [hvalue]
  rcases le_or_gt s digits with hle | hgt
  · -- one unit at the scale of the number is at least one at the last digit
    have hunit : (1 : ℚ) / 10 ^ digits ≤ 1 / 10 ^ s :=
      one_div_le_one_div_of_le (by positivity) (pow_le_pow_right₀ (by norm_num) hle)
    have hnumerator : (m + 1 : ℚ) ≤ 10 ^ s := by exact_mod_cast hlt
    have : (m : ℚ) / 10 ^ s + 1 / 10 ^ s ≤ 1 := by
      rw [← add_div, div_le_one (by positivity)]
      exact hnumerator
    linarith
  · -- so many places with so few digits leave the number below a tenth
    have hten : (10 : ℚ) ^ digits * 10 ≤ 10 ^ s := by
      rw [← pow_succ]
      exact pow_le_pow_right₀ (by norm_num) hgt
    have hm : (m : ℚ) ≤ 10 ^ digits := by
      have := hdigits.le.trans (Nat.pow_le_pow_right (by norm_num) hprecision)
      exact_mod_cast this
    have hquotient : (m : ℚ) / 10 ^ s ≤ 1 / 10 := by
      rw [div_le_div_iff₀ (by positivity) (by norm_num)]
      linarith
    have hone : 1 ≤ digits := (digitCount_pos x.mantissa.natAbs).trans_le hprecision
    have hunit : (1 : ℚ) / 10 ^ digits ≤ 1 / 10 ^ 1 :=
      one_div_le_one_div_of_le (by norm_num) (pow_le_pow_right₀ (by norm_num) hone)
    linarith

/-! ### Products and quotients -/

/-- The working precision keeps some digits. -/
lemma workingDigits_pos : 0 < workingDigits := by norm_num [workingDigits]

/-- The relative error of products and quotients at the working precision. -/
def relativeError : ℚ := 1 / 10 ^ 31

/-- An exact product at the sum of the scales. -/
lemma toRat_product (x y : Decimal) :
    (⟨x.mantissa * y.mantissa, x.scale + y.scale⟩ : Decimal).toRat = x.toRat * y.toRat := by
  rw [toRat, toRat, toRat, neg_add, zpow_add₀ (by norm_num)]
  push_cast
  ring

/-- The error of a product that keeps at least the digits of the working precision. -/
lemma abs_timesRounded_sub_le (hdigits : workingDigits ≤ digits) (x y : Decimal) :
    |(x.timesRounded y digits).toRat - x.toRat * y.toRat| ≤
      |x.toRat * y.toRat| * relativeError := by
  have hdigits' : 32 ≤ digits := hdigits
  have hround := abs_round_sub_le (show 0 < digits by omega)
    ⟨x.mantissa * y.mantissa, x.scale + y.scale⟩
  rw [toRat_product] at hround
  refine hround.trans ?_
  rw [relativeError, mul_one_div]
  refine div_le_div_of_nonneg_left (abs_nonneg _) (by positivity) ?_
  have : (10 : ℚ) ^ 31 ≤ 10 ^ (digits - 1) := pow_le_pow_right₀ (by norm_num) (by omega)
  linarith

/-- A number near a nonnegative one, by the relative error. -/
lemma bounds_of_abs_sub_le {a b : ℚ} (hb : 0 ≤ b) (h : |a - b| ≤ |b| * relativeError) :
    b * (1 - relativeError) ≤ a ∧ a ≤ b * (1 + relativeError) := by
  rw [abs_of_nonneg hb, abs_le] at h
  constructor <;> linarith

/-- A number near a nonnegative one, by the relative error, is not negative. -/
lemma nonneg_of_abs_sub_le {a b : ℚ} (hb : 0 ≤ b) (h : |a - b| ≤ |b| * relativeError) : 0 ≤ a :=
  calc 0 ≤ b * (1 - relativeError) := mul_nonneg hb (by norm_num [relativeError])
    _ ≤ a := (bounds_of_abs_sub_le hb h).1

/-- **The error of a product.** -/
theorem abs_mul_sub_le (x y : Decimal) :
    |(x * y).toRat - x.toRat * y.toRat| ≤ |x.toRat * y.toRat| * relativeError :=
  abs_timesRounded_sub_le le_rfl x y

/-- A product that reaches a power of ten does so after rounding. -/
lemma le_timesRounded {k : ℤ} (hdigits : 0 < digits) (hk : 10 ^ k ≤ x.toRat * y.toRat) :
    10 ^ k ≤ (x.timesRounded y digits).toRat := by
  rw [← toRat_product] at hk
  exact le_round hdigits ((zpow_ten_pos k).le.trans hk) hk

/-- A product that does not exceed a power of ten does not do so after rounding. -/
lemma timesRounded_le {k : ℤ} (hdigits : 0 < digits) (hx : 0 ≤ x.toRat * y.toRat)
    (hk : x.toRat * y.toRat ≤ 10 ^ k) : (x.timesRounded y digits).toRat ≤ 10 ^ k := by
  rw [← toRat_product] at hx hk
  exact round_le hdigits hx hk

/-- A quotient truncated to an integer is off by less than one, toward zero. -/
lemma abs_tdiv_sub_lt (n : ℤ) {d : ℤ} (hd : d ≠ 0) :
    |((n.tdiv d : ℤ) : ℚ) - n / d| < 1 ∧ |((n.tdiv d : ℤ) : ℚ)| ≤ |(n : ℚ) / d| := by
  have hd' : (0 : ℚ) < |(d : ℚ)| := abs_pos.mpr (Int.cast_ne_zero.mpr hd)
  have hdne : (d : ℚ) ≠ 0 := Int.cast_ne_zero.mpr hd
  constructor
  · have hsplit : (n : ℚ) = d * (n.tdiv d : ℤ) + (n.tmod d : ℤ) := by
      exact_mod_cast (Int.mul_tdiv_add_tmod n d).symm
    have hrest : ((n.tdiv d : ℤ) : ℚ) - n / d = -((n.tmod d : ℤ) / d) := by
      rw [hsplit, add_div, mul_div_cancel_left₀ _ hdne]
      ring
    have hlt : (n.tmod d).natAbs < d.natAbs := by
      rw [Int.natAbs_tmod]
      exact Nat.mod_lt _ (Int.natAbs_pos.mpr hd)
    rw [hrest, abs_neg, abs_div, div_lt_one hd', ← Int.cast_abs, ← Int.cast_abs, Int.cast_lt,
      Int.abs_eq_natAbs, Int.abs_eq_natAbs]
    exact_mod_cast hlt
  · have hle : (n.tdiv d).natAbs * d.natAbs ≤ n.natAbs := by
      rw [Int.natAbs_tdiv]
      exact Nat.div_mul_le_self _ _
    rw [abs_div, le_div_iff₀ hd', ← Int.cast_abs, ← Int.cast_abs, ← Int.cast_abs, Int.abs_eq_natAbs,
      Int.abs_eq_natAbs, Int.abs_eq_natAbs]
    exact_mod_cast hle

/-- The quotient before it is rounded: truncated at a scale at which it has more digits than are
kept. -/
def truncatedQuotient (x y : Decimal) : Decimal :=
  let shift := x.quotientShift y
  ⟨(x.mantissa * tenPow shift).tdiv y.mantissa, x.scale - y.scale + shift⟩

/-- Zero divided is zero. -/
lemma div_eq_zero (hx : x.isZero = true) : x / y = 0 := by
  rw [show x / y = x.quotient y from rfl, quotient, hx]
  rfl

/-- Any other quotient is the truncated one rounded. -/
lemma div_eq_round (hx : x.isZero = false) :
    x / y = (x.truncatedQuotient y).round workingDigits := by
  rw [show x / y = x.quotient y from rfl, quotient, hx]
  rfl

/-- The exact quotient, in units of the last place of the truncated one. -/
lemma toRat_div_eq (hy : y.toRat ≠ 0) :
    x.toRat / y.toRat = ((x.mantissa * tenPow (x.quotientShift y) : ℤ) : ℚ) / y.mantissa *
      10 ^ (-(x.scale - y.scale + x.quotientShift y)) := by
  set shift := x.quotientShift y with hshift
  have hten : ((tenPow shift : ℤ) : ℚ) = 10 ^ (shift : ℤ) := by
    rw [tenPow_eq, Int.cast_natCast, zpow_natCast]
    push_cast
    rfl
  have hscales : (10 : ℚ) ^ (-x.scale) =
      10 ^ (-y.scale) * (10 ^ (shift : ℤ) * 10 ^ (-(x.scale - y.scale + shift))) := by
    rw [← zpow_add₀ (by norm_num), ← zpow_add₀ (by norm_num)]
    congr 1
    ring
  have hunit : (10 : ℚ) ^ (-y.scale) ≠ 0 := (zpow_ten_pos _).ne'
  have hmantissa : (y.mantissa : ℚ) ≠ 0 := Int.cast_ne_zero.mpr (mantissa_ne_zero hy)
  rw [toRat, toRat, hscales, Int.cast_mul, hten]
  field_simp

/-- The shift makes the quotient of the integers large. -/
lemma le_abs_quotient (hx : x.toRat ≠ 0) (hy : y.toRat ≠ 0) :
    (10 : ℚ) ^ 32 ≤ |((x.mantissa * tenPow (x.quotientShift y) : ℤ) : ℚ) / y.mantissa| := by
  set shift := x.quotientShift y with hshift
  have hdividend : 10 ^ (x.precision - 1) ≤ x.mantissa.natAbs :=
    pow_le_of_digitCount (Int.natAbs_pos.mpr (mantissa_ne_zero hx))
  have hdivisor : y.mantissa.natAbs < 10 ^ y.precision := lt_pow_digitCount _
  have hexponent : 32 + y.precision ≤ x.precision - 1 + shift := by
    have : 0 < x.precision := digitCount_pos x.mantissa.natAbs
    rw [hshift, quotientShift, workingDigits]
    omega
  have hproduct : 10 ^ 32 * y.mantissa.natAbs ≤ x.mantissa.natAbs * 10 ^ shift :=
    calc 10 ^ 32 * y.mantissa.natAbs ≤ 10 ^ 32 * 10 ^ y.precision :=
          Nat.mul_le_mul_left _ hdivisor.le
      _ = 10 ^ (32 + y.precision) := by rw [pow_add]
      _ ≤ 10 ^ (x.precision - 1 + shift) := Nat.pow_le_pow_right (by norm_num) hexponent
      _ = 10 ^ (x.precision - 1) * 10 ^ shift := by rw [pow_add]
      _ ≤ x.mantissa.natAbs * 10 ^ shift := Nat.mul_le_mul_right _ hdividend
  have hpos : (0 : ℚ) < |(y.mantissa : ℚ)| :=
    abs_pos.mpr (Int.cast_ne_zero.mpr (mantissa_ne_zero hy))
  have hten : (tenPow shift).natAbs = 10 ^ shift := Int.natAbs_natCast _
  rw [abs_div, le_div_iff₀ hpos, ← Int.cast_abs, ← Int.cast_abs, Int.abs_eq_natAbs,
    Int.abs_eq_natAbs, Int.natAbs_mul, hten]
  exact_mod_cast hproduct

/-- The truncated quotient is smaller in size than the exact one, by a small part of it. -/
lemma truncatedQuotient_bounds (hx : x.toRat ≠ 0) (hy : y.toRat ≠ 0) :
    |(x.truncatedQuotient y).toRat - x.toRat / y.toRat| ≤
        |x.toRat / y.toRat| * (1 / 10 ^ 32) ∧
      |(x.truncatedQuotient y).toRat| ≤ |x.toRat / y.toRat| := by
  have hlarge := le_abs_quotient hx hy
  obtain ⟨hnear, hbelow⟩ :=
    abs_tdiv_sub_lt (x.mantissa * tenPow (x.quotientShift y)) (mantissa_ne_zero hy)
  have htruncated : (x.truncatedQuotient y).toRat =
      (((x.mantissa * tenPow (x.quotientShift y)).tdiv y.mantissa : ℤ) : ℚ) *
        10 ^ (-(x.scale - y.scale + x.quotientShift y)) := rfl
  rw [htruncated, toRat_div_eq hy]
  set unit : ℚ := 10 ^ (-(x.scale - y.scale + x.quotientShift y))
  set quotient : ℚ := ((x.mantissa * tenPow (x.quotientShift y) : ℤ) : ℚ) / y.mantissa
  have hpos : 0 < unit := zpow_ten_pos _
  constructor
  · rw [← sub_mul, abs_mul, abs_mul, abs_of_pos hpos]
    have hone : 1 ≤ |quotient| * (1 / 10 ^ 32) := by
      rw [mul_one_div, le_div_iff₀ (by positivity), one_mul]
      exact hlarge
    calc _ ≤ 1 * unit := mul_le_mul_of_nonneg_right hnear.le hpos.le
      _ ≤ |quotient| * (1 / 10 ^ 32) * unit := mul_le_mul_of_nonneg_right hone hpos.le
      _ = |quotient| * unit * (1 / 10 ^ 32) := by ring
  · rw [abs_mul, abs_mul]
    exact mul_le_mul_of_nonneg_right hbelow (abs_nonneg _)

/-- **The error of a quotient.** -/
theorem abs_div_sub_le (x : Decimal) (hy : y.toRat ≠ 0) :
    |(x / y).toRat - x.toRat / y.toRat| ≤ |x.toRat / y.toRat| * relativeError := by
  cases hzero : x.isZero with
  | true =>
    rw [div_eq_zero hzero, (isZero_iff x).mp hzero]
    simp
  | false =>
    obtain ⟨hnear, hbelow⟩ := truncatedQuotient_bounds ((isZero_eq_false_iff x).mp hzero) hy
    have hround := abs_round_sub_le workingDigits_pos (x.truncatedQuotient y)
    rw [div_eq_round hzero]
    have htriangle := abs_sub_le ((x.truncatedQuotient y).round workingDigits).toRat
      (x.truncatedQuotient y).toRat (x.toRat / y.toRat)
    have hsmaller : |(x.truncatedQuotient y).toRat| / (2 * 10 ^ (workingDigits - 1)) ≤
        |x.toRat / y.toRat| * (1 / (2 * 10 ^ 31)) := by
      rw [mul_one_div]
      exact div_le_div_of_nonneg_right hbelow (by positivity)
    have hsize := abs_nonneg (x.toRat / y.toRat)
    rw [relativeError]
    linarith

/-- A quotient that does not exceed a power of ten does not do so after rounding. -/
lemma div_le {k : ℤ} (hx : 0 ≤ x.toRat) (hy : 0 < y.toRat) (hk : x.toRat / y.toRat ≤ 10 ^ k) :
    (x / y).toRat ≤ 10 ^ k := by
  cases hzero : x.isZero with
  | true =>
    rw [div_eq_zero hzero, toRat_zero]
    exact (zpow_ten_pos k).le
  | false =>
    obtain ⟨hnear, hbelow⟩ := truncatedQuotient_bounds ((isZero_eq_false_iff x).mp hzero) hy.ne'
    have hquotient : 0 ≤ x.toRat / y.toRat := div_nonneg hx hy.le
    rw [abs_of_nonneg hquotient] at hnear hbelow
    rw [abs_le] at hnear
    rw [div_eq_round hzero]
    refine round_le workingDigits_pos ?_ ((le_abs_self _).trans (hbelow.trans hk))
    linarith

/-- A quotient holds at most the digits of the working precision. -/
lemma precision_div_le (x y : Decimal) : (x / y).precision ≤ workingDigits := by
  cases hzero : x.isZero with
  | true =>
    rw [div_eq_zero hzero]
    decide
  | false =>
    rw [div_eq_round hzero]
    exact precision_round_le workingDigits_pos _

/-! ### Powers -/

/-- **Repeated squaring**, one binary digit after the other: let `B k` say how a number comes near
the `k`-th power of the base, and `Q k` how one comes near a start times that power. If squares keep
`B` and rounded products keep `Q`, as long as the exponents stay below that of the whole, then the
loop comes near the start times the power. -/
theorem powerLoop_induction {B Q : ℕ → Decimal → Prop} {bound n : ℕ} (hbound : n < 2 ^ bound)
    (hsquare : ∀ {k y}, k + k ≤ n → B k y → B (k + k) (y.timesRounded y powerDigits))
    (htimes : ∀ {k l y z}, k + l ≤ n → Q k y → B l z → Q (k + l) (y.timesRounded z powerDigits))
    {base product : Decimal} (hbase : B 1 base) (hproduct : Q 0 product) :
    Q n (powerLoop bound n base product) := by
  -- on the way the exponents of the product and of what is left add up to that of the whole
  suffices ∀ {m i j : ℕ} {base product : Decimal}, m < 2 ^ bound → j + i * m = n → B i base →
      Q j product → Q n (powerLoop bound m base product) from
    this hbound (by omega) hbase hproduct
  clear hbound hbase hproduct base product
  induction bound with
  | zero =>
    intro m i j base product hbound hsum hbase hproduct
    obtain rfl : m = 0 := by simpa using hbound
    obtain rfl : j = n := by simpa using hsum
    exact hproduct
  | succ bound ih =>
    intro m i j base product hbound hsum hbase hproduct
    have hdigits : j + i * (m % 2) + (i + i) * (m / 2) = n := by
      rw [← hsum]
      conv_rhs => rw [← Nat.mod_add_div m 2]
      ring
    rw [powerLoop]
    -- the lowest binary digit
    have hnext : Q (j + i * (m % 2))
        (if m % 2 = 1 then product.timesRounded base powerDigits else product) := by
      split
      · next hodd =>
        rw [hodd, mul_one] at hdigits ⊢
        exact htimes (by omega) hproduct hbase
      · next heven =>
        rw [show m % 2 = 0 by omega]
        exact hproduct
    split
    · next hlast =>
      rw [hlast, mul_zero, add_zero] at hdigits
      rwa [hdigits] at hnext
    · next hmore =>
      -- the other digits, of a power of the square
      have hsquares : i + i ≤ (i + i) * (m / 2) := Nat.le_mul_of_pos_right _ (by omega)
      exact ih (by rw [pow_succ] at hbound; omega) hdigits (hsquare (by omega) hbase) hnext

/-- How an integer power comes about: the first ones of all numbers and those of zero at once, the
others by repeated squaring, with a reciprocal if the exponent is negative. -/
inductive PowerCases (x : Decimal) : ℤ → Decimal → Prop
  | one : PowerCases x 0 1
  | zero {n : ℤ} : x.toRat = 0 → 0 < n → PowerCases x n 0
  | rounded (m : ℕ) : x.toRat ≠ 0 → 0 < m → (|x.magnitude| + 1) * m ≤ scaleLimit →
      PowerCases x m ((powerLoop (m.log2 + 1) m x 1).round workingDigits)
  | inverted (m : ℕ) : x.toRat ≠ 0 → 0 < m → (|x.magnitude| + 1) * m ≤ scaleLimit →
      PowerCases x (-m) (1 / powerLoop (m.log2 + 1) m x 1)

/-- **The cases of a power** are all there are. -/
theorem power?_cases {n : ℤ} {v : Decimal} (h : x.power? n = some v) : PowerCases x n v := by
  rw [power?] at h
  split at h
  · next hzero =>
    obtain rfl := Option.some.inj h
    exact hzero ▸ .one
  · next hne =>
    split at h
    · next hbase =>
      split at h
      · next hpos =>
        obtain rfl := Option.some.inj h
        exact .zero ((isZero_iff x).mp hbase) hpos
      · exact absurd h (by simp)
    · next hbase =>
      have hx : x.toRat ≠ 0 := fun hzero => hbase ((isZero_iff x).mpr hzero)
      split at h
      · exact absurd h (by simp)
      · next hlimit =>
        obtain rfl := Option.some.inj h
        rw [not_lt, Int.natCast_natAbs x.magnitude] at hlimit
        obtain ⟨m, rfl | rfl⟩ := n.eq_nat_or_neg
        · rw [Int.natAbs_natCast] at hlimit ⊢
          rw [if_neg (not_lt.mpr m.cast_nonneg)]
          exact .rounded m hx (by omega) hlimit
        · rw [Int.natAbs_neg, Int.natAbs_natCast] at hlimit ⊢
          rw [if_pos (by omega)]
          exact .inverted m hx (by omega) hlimit

/-- Exponents whose powers are in range are integers of 32 bits. -/
lemma le_of_le_scaleLimit {m : ℕ} (h : (|x.magnitude| + 1) * m ≤ scaleLimit) : m ≤ 2 ^ 31 - 1 := by
  have hle : 1 * (m : ℤ) ≤ (|x.magnitude| + 1) * m :=
    mul_le_mul_of_nonneg_right (by linarith [abs_nonneg x.magnitude]) m.cast_nonneg
  rw [scaleLimit] at h
  omega

end Decimal

end DecimalCalculator
