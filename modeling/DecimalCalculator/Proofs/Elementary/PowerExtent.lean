import DecimalCalculator.Expression.Evaluate
import DecimalCalculator.Proofs.Decimal.Extent
import DecimalCalculator.Proofs.Decimal.Nearness
import DecimalCalculator.Proofs.Elementary.Logarithm

/-!
The scales of powers.

* `StaysWithin`: a computation comes to a decimal within some extent, or to a failure that is
  reported.
* `powerExtent`: a bound on the extents of powers, whatever the extents of their operands are.
* `exp_staysWithin`, `pow_staysWithin`: powers of `e`, and powers with any exponent.
* `Decimal.power?_extent_le`: powers by repeated squaring.
* `raise_staysWithin`: **every power** of the language stays within the bound.
-/

namespace DecimalCalculator

open Decimal

/-! ### Computations -/

/-- A computation stays within an extent: its value does, or its failure is reported. -/
def StaysWithin (n : ℤ) : Except Failure Decimal → Prop
  | .ok x => x.extent ≤ n
  | .error f => f.breaksOff = false

section StaysWithin

variable {α : Type} {m n : ℤ} {r : Except Failure α} {next : α → Except Failure Decimal}

/-- A larger extent is kept too. -/
lemma StaysWithin.mono {r : Except Failure Decimal} (h : StaysWithin m r) (hle : m ≤ n) :
    StaysWithin n r := by
  cases r with
  | ok x => exact le_trans h hle
  | error f => exact h

/-- A computation stays within an extent if its first step reports its failures, and what comes
after it stays within the extent. -/
lemma StaysWithin.bind (hr : ∀ f, r = .error f → f.breaksOff = false)
    (hnext : ∀ a, r = .ok a → StaysWithin n (next a)) : StaysWithin n (r >>= next) := by
  cases r with
  | ok a => exact hnext a rfl
  | error f => exact hr f rfl

/-- What stays within an extent reports its failures. -/
lemma StaysWithin.reported {r : Except Failure Decimal} (h : StaysWithin n r) :
    ∀ f, r = .error f → f.breaksOff = false := by
  rintro f rfl
  exact h

end StaysWithin

/-- The range of 32-bit exponents, and room for the digits that are worked with. -/
def powerExtent : ℤ := 2 ^ 31 + 100

lemma extent_zero_le : (0 : Decimal).extent ≤ powerExtent := by decide

lemma extent_one_le : (1 : Decimal).extent ≤ powerExtent := by decide

/-- A number with few digits stays within the bound if its first digit is within the range of
32-bit exponents. -/
lemma extent_le_powerExtent {x : Decimal} {k : ℤ} (hk : k ≤ 2 ^ 31 + 5)
    (hprecision : x.precision ≤ workingDigits) (hlow : (10 : ℚ) ^ (-k) ≤ |x.toRat|)
    (hhigh : |x.toRat| < 10 ^ (k + 1)) : x.extent ≤ powerExtent := by
  have hne : x.toRat ≠ 0 := abs_pos.mp ((zpow_ten_pos _).trans_le hlow)
  have hfirst := le_magnitude hlow
  have hfirst' := magnitude_lt hne hhigh
  have hmagnitude : |x.magnitude| ≤ k := by
    rw [abs_le]
    constructor <;> omega
  have := extent_le_of_precision hprecision hmagnitude
  rw [powerExtent]
  omega

namespace Elementary

variable {x : Decimal}

/-! ### The exponential function -/

/-- The number that the exponential function comes to, before it is flushed, has the digits of the
working precision, and its first digit is not far before the point. -/
lemma unflushed_bounds {w k : ℤ} {p : Decimal} (hw : wholeExponent? x.abs = some w)
    (hp : e.power? w = some p) (hnonneg : 0 ≤ w) (hk : w ≤ k) :
    (if x.isNegative then 1 / grown x w p else grown x w p).precision ≤ workingDigits ∧
      |(if x.isNegative then 1 / grown x w p else grown x w p).toRat| < 10 ^ (k + 5) := by
  obtain ⟨hgrown, hgrown_le⟩ := grown_bounds hw hp
  have hpos : 0 < (grown x w p).toRat := by linarith
  split
  · refine ⟨precision_div_le _ _, ?_⟩
    have hone : (1 : Decimal).toRat / (grown x w p).toRat ≤ 10 ^ (0 : ℤ) := by
      rw [toRat_one, zpow_zero]
      exact div_le_one_of_le₀ hgrown hpos.le
    have hle := div_le (k := 0) (by simp) hpos hone
    have hquotient : 0 ≤ (1 / grown x w p).toRat :=
      nonneg_of_abs_sub_le (by rw [toRat_one]; positivity) (abs_div_sub_le 1 hpos.ne')
    rw [abs_of_nonneg hquotient]
    exact hle.trans_lt (zpow_lt_zpow_right₀ (by norm_num) (by omega))
  · refine ⟨precision_round_le workingDigits_pos _, ?_⟩
    have hpower : (3 : ℚ) ^ w.toNat ≤ 10 ^ k :=
      calc (3 : ℚ) ^ w.toNat ≤ 10 ^ w.toNat := pow_le_pow_left₀ (by norm_num) (by norm_num) _
        _ = 10 ^ (w.toNat : ℤ) := (zpow_natCast _ _).symm
        _ ≤ 10 ^ k := zpow_le_zpow_right₀ (by norm_num) (by omega)
    rw [abs_of_pos hpos]
    calc (grown x w p).toRat ≤ 3 ^ w.toNat * 1001 * (1 + relativeError) := hgrown_le
      _ = 3 ^ w.toNat * (1001 * (1 + relativeError)) := by ring
      _ < 3 ^ w.toNat * 10 ^ (5 : ℤ) := by
        refine mul_lt_mul_of_pos_left ?_ (by positivity)
        norm_num [relativeError]
      _ ≤ 10 ^ k * 10 ^ (5 : ℤ) := mul_le_mul_of_nonneg_right hpower (zpow_ten_pos 5).le
      _ = 10 ^ (k + 5) := (zpow_add₀ (by norm_num) _ _).symm

/-- **The exponential function** stays within the bound. -/
theorem exp_staysWithin (x : Decimal) : StaysWithin powerExtent (exp x) := by
  have hsize := toRat_abs_nonneg x
  cases hw : wholeExponent? x.abs with
  | none =>
    rw [exp_of_wholeExponent?_eq_none hw]
    split
    · exact extent_zero_le
    · exact rfl
  | some w =>
    obtain ⟨hnonneg, hrange, -⟩ := wholeExponent?_spec hsize hw
    obtain ⟨p, hp⟩ := exists_power_e hnonneg hrange
    -- the exponent is kept as a variable, so that its power of ten is not computed
    obtain ⟨k, hk, hk'⟩ : ∃ k, w ≤ k ∧ k ≤ 2 ^ 31 ∧ 30 ≤ k := ⟨2 ^ 31, by omega, le_rfl, by norm_num⟩
    obtain ⟨hprecision, hlt⟩ := unflushed_bounds hw hp hnonneg hk
    rw [exp_of_wholeExponent? hw hp (one_pos.trans_le (grown_bounds hw hp).1).ne']
    set value := if x.isNegative then 1 / grown x w p else grown x w p
    by_cases hsmall : |value.toRat| < 1 / 10 ^ 30
    · rw [flush_of_lt hsmall]
      exact extent_zero_le
    · rw [flush_of_le (not_lt.mp hsmall)]
      have hreached : (10 : ℚ) ^ (-(k + 4)) ≤ |value.toRat| := by
        refine le_trans ?_ (not_lt.mp hsmall)
        rw [one_div, ← zpow_natCast, ← zpow_neg]
        exact zpow_le_zpow_right₀ (by norm_num) (by push_cast; omega)
      rw [show k + 5 = k + 4 + 1 by ring] at hlt
      exact extent_le_powerExtent (by omega) hprecision hreached hlt

/-! ### Powers with any exponent -/

/-- A sign that depends on something moves no digit. -/
lemma extent_ite_neg (x : Decimal) (negative : Bool) :
    (if negative then -x else x).extent = x.extent := by
  cases negative
  · rfl
  · exact extent_neg x

/-- The logarithm reports its failures. -/
lemma ln_reported {f : Failure} (h : ln x = .error f) : f.breaksOff = false := by
  rw [ln] at h
  split at h
  · obtain rfl := Except.error.inj h
    rfl
  · split at h <;> exact absurd h (by simp)

/-- **Powers with any exponent** stay within the bound. -/
theorem pow_staysWithin (base exponent : Decimal) : StaysWithin powerExtent (pow base exponent) := by
  rw [pow]
  split
  · exact extent_one_le
  · split
    · exact .bind (fun _ h => ln_reported h) fun l _ => exp_staysWithin _
    · split
      · split
        · exact extent_zero_le
        · exact rfl
      · split
        · exact rfl
        · -- the sign of a power of a negative base
          refine .bind (fun _ h => ln_reported h) fun l _ => ?_
          have hsize := exp_staysWithin (exponent * l)
          refine .bind hsize.reported fun size hvalue => ?_
          rw [hvalue] at hsize
          exact (extent_ite_neg size _).trans_le hsize

end Elementary

/-! ### Repeated squaring -/

namespace Decimal

variable {x v : Decimal}

/-- A power by repeated squaring, before it is rounded, is off by less than a tenth. -/
lemma abs_powerLoop_bounds {n : ℕ} (hn : n ≤ 2 ^ 31) (x : Decimal) :
    9 / 10 * |x.toRat| ^ n ≤ |(powerLoop (n.log2 + 1) n x 1).toRat| ∧
      |(powerLoop (n.log2 + 1) n x 1).toRat| ≤ 11 / 10 * |x.toRat| ^ n := by
  have hone : IsNear 0 (1 : Decimal).toReal 1 := by
    rw [toReal_one]
    exact IsNear.refl 1
  have hloop := powerLoop_near n.lt_log2_self (IsNear.refl x.toReal) hone
  have herror : (1 + 0) * ((1 + 0) * (1 + powerError)) ^ n - 1 ≤ 1 / 10 := by
    have hn' : (n : ℝ) ≤ 2 ^ 31 := by exact_mod_cast hn
    have hmany : 2 * (n : ℝ) * powerError ≤ 2 * 2 ^ 31 * powerError := by
      have : 0 ≤ powerError := by norm_num [powerError]
      gcongr
    have hsmall : 2 * 2 ^ 31 * powerError ≤ 1 / 10 := by norm_num [powerError]
    have hpow := one_add_pow_le (show 0 ≤ powerError by norm_num [powerError]) (n := n) (by linarith)
    rw [add_zero, one_mul, one_mul]
    linarith
  have hnear := hloop.mono herror
  rw [one_mul] at hnear
  have hlow := hnear.mul_le_abs
  have hhigh := hnear.abs_le_mul
  rw [abs_pow] at hlow hhigh
  set product := powerLoop (n.log2 + 1) n x 1
  have hlow' : ((9 / 10 * |x.toRat| ^ n : ℚ) : ℝ) ≤ ((|product.toRat| : ℚ) : ℝ) := by
    push_cast
    refine le_trans (le_of_eq ?_) hlow
    rw [toReal]
    norm_num
  have hhigh' : ((|product.toRat| : ℚ) : ℝ) ≤ ((11 / 10 * |x.toRat| ^ n : ℚ) : ℝ) := by
    push_cast
    refine hhigh.trans (le_of_eq ?_)
    rw [toReal]
    norm_num
  exact ⟨Rat.cast_le.mp hlow', Rat.cast_le.mp hhigh'⟩

/-- The power of a number lies between powers of ten that its first digit gives. -/
lemma abs_pow_bounds {n : ℕ} {k : ℤ} (hx : x.toRat ≠ 0) (hk : (|x.magnitude| + 1) * n ≤ k) :
    (10 : ℚ) ^ (-k) ≤ |x.toRat| ^ n ∧ |x.toRat| ^ n ≤ 10 ^ k := by
  have hnonneg : (0 : ℤ) ≤ n := Int.natCast_nonneg n
  have hupper : (x.magnitude + 1) * n ≤ k :=
    (mul_le_mul_of_nonneg_right (by linarith [le_abs_self x.magnitude]) hnonneg).trans hk
  have hlower : -k ≤ x.magnitude * n := by
    have : -(|x.magnitude| + 1) * n ≤ x.magnitude * n :=
      mul_le_mul_of_nonneg_right (by linarith [neg_abs_le x.magnitude]) hnonneg
    linarith
  constructor
  · calc (10 : ℚ) ^ (-k) ≤ 10 ^ (x.magnitude * n) := zpow_le_zpow_right₀ (by norm_num) hlower
      _ = (10 ^ x.magnitude) ^ n := by rw [zpow_mul, zpow_natCast]
      _ ≤ |x.toRat| ^ n := pow_le_pow_left₀ (zpow_ten_pos _).le (zpow_magnitude_le hx) n
  · calc |x.toRat| ^ n ≤ (10 ^ (x.magnitude + 1)) ^ n :=
          pow_le_pow_left₀ (abs_nonneg _) (lt_zpow_magnitude x).le n
      _ = 10 ^ ((x.magnitude + 1) * n) := by rw [zpow_mul, zpow_natCast]
      _ ≤ 10 ^ k := zpow_le_zpow_right₀ (by norm_num) hupper

/-- A number near one between powers of ten is between slightly farther ones. -/
lemma bounds_of_near {a b : ℚ} {k : ℤ} (hlow : (10 : ℚ) ^ (-k) ≤ |b|) (hhigh : |b| ≤ 10 ^ k)
    (h : 9 / 10 * |b| ≤ |a| ∧ |a| ≤ 11 / 10 * |b|) :
    (10 : ℚ) ^ (-(k + 1)) ≤ |a| ∧ |a| ≤ 10 ^ (k + 1) := by
  have hunit := zpow_ten_pos (-(k + 1))
  have hlow' : (10 : ℚ) ^ (-k) = 10 ^ (-(k + 1)) * 10 := by
    rw [← zpow_add_one₀ (by norm_num)]
    congr 1
    ring
  rw [zpow_add_one₀ (by norm_num)]
  have := zpow_ten_pos k
  constructor <;> linarith

/-- A number near another one, by the relative error, is off by less than a tenth. -/
lemma tenth_of_abs_sub_le {a b : ℚ} (h : |a - b| ≤ |b| * relativeError) :
    9 / 10 * |b| ≤ |a| ∧ |a| ≤ 11 / 10 * |b| := by
  have hlow := abs_sub_abs_le_abs_sub b a
  have hhigh := abs_sub_abs_le_abs_sub a b
  have hnonneg := abs_nonneg b
  rw [abs_sub_comm] at hlow
  norm_num [relativeError] at h
  constructor <;> linarith

/-- What repeated squaring comes to lies between powers of ten that the first digit of the base
gives. -/
lemma abs_powerLoop_le {m : ℕ} (hx : x.toRat ≠ 0) (hm : (|x.magnitude| + 1) * m ≤ scaleLimit) :
    (10 : ℚ) ^ (-(scaleLimit + 1)) ≤ |(powerLoop (m.log2 + 1) m x 1).toRat| ∧
      |(powerLoop (m.log2 + 1) m x 1).toRat| ≤ 10 ^ (scaleLimit + 1) := by
  obtain ⟨hlow, hhigh⟩ := abs_pow_bounds hx hm
  have hnear := abs_powerLoop_bounds ((le_of_le_scaleLimit hm).trans (by norm_num)) x
  rw [← abs_pow] at hlow hhigh hnear
  exact bounds_of_near hlow hhigh hnear

/-- A number close to one between those powers of ten stays within the bound, if it has the digits
of the working precision. -/
lemma extent_le_of_near {w : Decimal} {b : ℚ} (hprecision : w.precision ≤ workingDigits)
    (hnear : |w.toRat - b| ≤ |b| * relativeError) (hlow : (10 : ℚ) ^ (-(scaleLimit + 1)) ≤ |b|)
    (hhigh : |b| ≤ 10 ^ (scaleLimit + 1)) : w.extent ≤ powerExtent := by
  obtain ⟨hlow, hhigh⟩ := bounds_of_near hlow hhigh (tenth_of_abs_sub_le hnear)
  refine extent_le_powerExtent (k := scaleLimit + 1 + 1) (by decide) hprecision hlow ?_
  exact hhigh.trans_lt (zpow_lt_zpow_right₀ (by norm_num) (by omega))

/-- **Powers by repeated squaring** stay within the bound. -/
theorem power?_extent_le {n : ℤ} (h : x.power? n = some v) : v.extent ≤ powerExtent := by
  cases power?_cases h with
  | one => exact extent_one_le
  | zero => exact extent_zero_le
  | rounded m hx _ hm =>
    obtain ⟨hlow, hhigh⟩ := abs_powerLoop_le hx hm
    refine extent_le_of_near (precision_round_le workingDigits_pos _) ?_ hlow hhigh
    refine (abs_round_sub_le workingDigits_pos _).trans ?_
    rw [div_eq_mul_one_div]
    refine mul_le_mul_of_nonneg_left ?_ (abs_nonneg _)
    norm_num [workingDigits, relativeError]
  | inverted m hx _ hm =>
    obtain ⟨hlow, hhigh⟩ := abs_powerLoop_le hx hm
    have hpos := (zpow_ten_pos _).trans_le hlow
    refine extent_le_of_near (precision_div_le 1 _) (abs_div_sub_le 1 (abs_pos.mp hpos)) ?_ ?_
    · rw [toRat_one, abs_div, abs_one, zpow_neg, ← one_div]
      exact one_div_le_one_div_of_le hpos hhigh
    · rw [toRat_one, abs_div, abs_one, ← neg_neg (scaleLimit + 1), zpow_neg _ (-(scaleLimit + 1)),
        ← one_div]
      exact one_div_le_one_div_of_le (zpow_ten_pos _) hlow

end Decimal

/-! ### Powers of the language -/

/-- **Every power** stays within the bound. -/
theorem raise_staysWithin (base exponent : Decimal) :
    StaysWithin powerExtent (raise base exponent) := by
  rw [raise]
  split
  · exact rfl
  · split
    · exact rfl
    · split
      · next value hvalue =>
        obtain ⟨n, -, hpower⟩ := Option.bind_eq_some_iff.mp hvalue
        exact power?_extent_le hpower
      · exact Elementary.pow_staysWithin base exponent

end DecimalCalculator
