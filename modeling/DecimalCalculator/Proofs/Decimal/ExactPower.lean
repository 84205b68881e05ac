import Mathlib.Algebra.Squarefree.Basic
import Mathlib.RingTheory.Int.Basic
import DecimalCalculator.Proofs.Decimal.Equality

/-!
Integer powers that have few digits.

* `FitsDigits`: a number with at most so many significant digits, the zeros at its end not counted.
  `FitsDigits.roundSignificant_eq`: rounding to so many digits leaves it as it is, however many of
  these zeros are written.
* `Decimal.fitsDigits_pow_of_le`: **lower powers** have no more digits than higher ones, as no power
  of a number without zeros at its end has such zeros.
* `Decimal.powerLoop_eq`: so **repeated squaring** is exact, if the power that it comes to fits in
  the digits that are kept on the way.
* `Decimal.power?_eq_roundSignificant`: **such powers** are the exact ones rounded once, and so are
  their reciprocals.
-/

namespace DecimalCalculator

/-! ### Digits of a number -/

/-- A number with at most some significant digits, the zeros at its end not counted. -/
def FitsDigits (digits : ℕ) (q : ℚ) : Prop := ∃ m k : ℤ, |m| < 10 ^ digits ∧ q = m * 10 ^ k

/-- A number that fits is not rounded. -/
lemma FitsDigits.roundSignificant_eq {digits : ℕ} {q : ℚ} (h : FitsDigits digits q) :
    roundSignificant digits q = q := by
  obtain ⟨m, k, hm, rfl⟩ := h
  exact roundSignificant_of_fits hm

/-- A number other than zero times a power of ten can be written without zeros at its end. -/
lemma exists_withoutZeros {m : ℤ} (hm : m ≠ 0) (k : ℤ) :
    ∃ m' k' : ℤ, ¬ 10 ∣ m' ∧ (m : ℚ) * 10 ^ k = m' * 10 ^ k' := by
  have hfinite : FiniteMultiplicity 10 m := Int.finiteMultiplicity_iff.mpr ⟨by decide, hm⟩
  obtain ⟨m', hsplit, hlast⟩ := hfinite.exists_eq_pow_mul_and_not_dvd
  refine ⟨m', k + multiplicity 10 m, hlast, ?_⟩
  rw [zpow_add₀ (by norm_num), zpow_natCast]
  nth_rewrite 1 [hsplit]
  push_cast
  ring

/-- No power of a number without zeros at its end has such zeros. -/
lemma not_ten_dvd_pow {m : ℤ} (hm : ¬ 10 ∣ m) (n : ℕ) : ¬ 10 ∣ m ^ n := by
  have hsquarefree : Squarefree (10 : ℤ) := Int.squarefree_natAbs.mp (by decide +kernel)
  rcases Nat.eq_zero_or_pos n with rfl | hn
  · rw [pow_zero]
    decide
  · rwa [hsquarefree.dvd_pow_iff_dvd hn.ne']

/-- Without zeros at its end a number is written with the least digits. -/
lemma abs_le_of_mul_zpow_eq {m m' k k' : ℤ} (hm : ¬ 10 ∣ m) (h : (m : ℚ) * 10 ^ k = m' * 10 ^ k') :
    |m| ≤ |m'| := by
  -- one of the two numbers is the other one with further zeros
  have hzeros : ∀ {a b i j : ℤ}, i ≤ j → (a : ℚ) * 10 ^ i = b * 10 ^ j →
      a = b * 10 ^ (j - i).toNat := by
    intro a b i j hle hab
    have hten : (10 : ℚ) ^ j = 10 ^ (j - i).toNat * 10 ^ i := by
      rw [← zpow_natCast, ← zpow_add₀ (by norm_num)]
      congr 1
      omega
    rw [hten, ← mul_assoc] at hab
    exact_mod_cast mul_right_cancel₀ (Decimal.zpow_ten_pos i).ne' hab
  rcases le_or_gt k' k with hle | hlt
  · rw [hzeros hle h.symm, abs_mul, abs_pow]
    exact le_mul_of_one_le_right (abs_nonneg m) (one_le_pow₀ (by norm_num))
  · refine absurd ?_ hm
    rw [hzeros hlt.le h]
    exact Dvd.dvd.mul_left (dvd_pow_self 10 (by omega)) m'

namespace Decimal

variable {x v : Decimal} {digits : ℕ}

/-- **Lower powers** have no more digits than higher ones. -/
theorem fitsDigits_pow_of_le (hx : x.toRat ≠ 0) {m n : ℕ} (hmn : m ≤ n)
    (h : FitsDigits digits (x.toRat ^ n)) : FitsDigits digits (x.toRat ^ m) := by
  obtain ⟨a, i, hlast, hvalue⟩ := exists_withoutZeros (mantissa_ne_zero hx) (-x.scale)
  have hpower : ∀ l : ℕ, x.toRat ^ l = ((a ^ l : ℤ) : ℚ) * 10 ^ (i * l) := by
    intro l
    rw [toRat, hvalue, mul_pow, ← zpow_natCast (10 ^ i : ℚ), ← zpow_mul]
    push_cast
    rfl
  obtain ⟨b, j, hb, hsame⟩ := h
  have ha : 1 ≤ |a| := Int.one_le_abs fun hzero => hlast (by simp [hzero])
  refine ⟨a ^ m, i * m, ?_, hpower m⟩
  calc |a ^ m| = |a| ^ m := abs_pow a m
    _ ≤ |a| ^ n := pow_le_pow_right₀ ha hmn
    _ = |a ^ n| := (abs_pow a n).symm
    _ ≤ |b| := abs_le_of_mul_zpow_eq (not_ten_dvd_pow hlast n) ((hpower n).symm.trans hsame)
    _ < 10 ^ digits := hb

/-! ### Repeated squaring -/

/-- A product of two powers is exact, if the power with the sum of the exponents fits. -/
lemma timesRounded_eq_pow {q : ℚ} {y z : Decimal} {k l : ℕ} (h : FitsDigits powerDigits (q ^ (k + l)))
    (hy : y.toRat = q ^ k) (hz : z.toRat = q ^ l) :
    (y.timesRounded z powerDigits).toRat = q ^ (k + l) := by
  rw [toRat_timesRounded powerDigits_pos, hy, hz, ← pow_add, h.roundSignificant_eq]

/-- **Repeated squaring** comes to the exact power, if all powers up to that fit in the digits that
are kept on the way. -/
theorem powerLoop_eq {bound n : ℕ} (hbound : n < 2 ^ bound)
    (hfits : ∀ l ≤ n, FitsDigits powerDigits (x.toRat ^ l)) :
    (powerLoop bound n x 1).toRat = x.toRat ^ n :=
  powerLoop_induction (B := fun k y => y.toRat = x.toRat ^ k)
    (Q := fun k y => y.toRat = x.toRat ^ k) hbound (fun hk hy => timesRounded_eq_pow (hfits _ hk) hy hy)
    (fun hkl hy hz => timesRounded_eq_pow (hfits _ hkl) hy hz) (pow_one _).symm
    (by rw [toRat_one, pow_zero])

/-- **Integer powers** that have at most forty significant digits, the zeros at their end not
counted, are the exact ones rounded to 32 digits, a half going away from zero. So are the reciprocals
of such powers. -/
theorem power?_eq_roundSignificant {n : ℤ} (hfits : FitsDigits 40 (x.toRat ^ n.natAbs))
    (h : x.power? n = some v) : v.toRat = roundSignificant 32 (x.toRat ^ n) := by
  cases power?_cases h with
  | one =>
    have hone : roundSignificant 32 ((1 : ℤ) : ℚ) = (1 : ℤ) := roundSignificant_intCast (by decide)
    rw [zpow_zero, toRat_one]
    exact_mod_cast hone.symm
  | zero hx hpos => rw [hx, zero_zpow n hpos.ne', roundSignificant_zero, toRat_zero]
  | rounded m hx =>
    rw [Int.natAbs_natCast] at hfits
    have hpower := powerLoop_eq m.lt_log2_self fun l hl => fitsDigits_pow_of_le hx hl hfits
    rw [toRat_round workingDigits_pos, hpower, zpow_natCast]
    rfl
  | inverted m hx =>
    rw [Int.natAbs_neg, Int.natAbs_natCast] at hfits
    have hpower := powerLoop_eq m.lt_log2_self fun l hl => fitsDigits_pow_of_le hx hl hfits
    rw [toRat_div, hpower, toRat_one, one_div, zpow_neg, zpow_natCast]
    rfl

/-- The reciprocal of a power of a number with zeros at its end: the power is written with 61
digits, of which six are not such zeros. -/
theorem power?_eq_roundSignificant_zeros :
    (⟨40187757201646090534979423868313, 92⟩ : Decimal).toRat =
      roundSignificant 32 ((ofInt 1200000000000).toRat ^ (-5 : ℤ)) :=
  power?_eq_roundSignificant ⟨248832, 55, by decide, by norm_num⟩ (by decide +kernel)

end Decimal

end DecimalCalculator
