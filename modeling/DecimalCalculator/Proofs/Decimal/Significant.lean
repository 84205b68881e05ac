import Mathlib.Data.Int.Log
import DecimalCalculator.Proofs.Decimal.Rounding

/-!
Products and quotients are correctly rounded.

* `roundSignificant`: a rational number rounded to some significant digits, a half going away from
  zero. `roundSignificant_mul_zpow`: it does not see powers of ten, and
  `roundSignificant_of_fits`: a number that needs no more digits stays as it is.
* `abs_roundSignificant_sub_le`: its relative error is half a unit in the last digit.
* `roundSignificant_mono`: **rounding keeps the order** of numbers.
* `roundSignificant_neighbours`: between two neighbouring numbers of so many digits, the middle
  decides.
* `roundSignificant_eq_iff`: when a number is rounded to another one.
* `roundSignificant_of_truncated`: what is cut off behind the first further digit does not matter,
  so that rounding a truncated quotient rounds the quotient.
* `Decimal.toRat_round`: **rounding a decimal** rounds its number.
* `Decimal.mul_quotient?_correctly_rounded`: **products and quotients** are those of the numbers,
  rounded once to 32 digits.
-/

namespace DecimalCalculator

/-! ### Rounding of rational numbers -/

/-- The value of the last of some significant digits of a number. -/
def lastPlace (digits : ℕ) (q : ℚ) : ℚ := 10 ^ (Int.log 10 |q| + 1 - digits)

/-- The number rounded to some significant digits, a half going away from zero. -/
def roundSignificant (digits : ℕ) (q : ℚ) : ℚ :=
  SignType.sign q * ⌊|q| / lastPlace digits q + 1 / 2⌋ * lastPlace digits q

variable {digits : ℕ} {q t : ℚ}

lemma lastPlace_pos (digits : ℕ) (q : ℚ) : 0 < lastPlace digits q := Decimal.zpow_ten_pos _

/-- Zero is rounded to zero. -/
@[simp] lemma roundSignificant_zero (digits : ℕ) : roundSignificant digits 0 = 0 := by
  simp [roundSignificant]

/-- The exponent of the first digit lies between two powers of ten. -/
lemma log_eq_of_bounds {k : ℤ} (hlow : 10 ^ k ≤ q) (hhigh : q < 10 ^ (k + 1)) :
    Int.log 10 q = k := by
  have hpos : 0 < q := (Decimal.zpow_ten_pos k).trans_le hlow
  have hle := (Int.zpow_le_iff_le_log (b := 10) (by norm_num) hpos).mp (by exact_mod_cast hlow)
  have hlt := (Int.lt_zpow_iff_log_lt (b := 10) (by norm_num) hpos).mp (by exact_mod_cast hhigh)
  omega

/-- The powers of ten around a positive number. -/
lemma zpow_log_bounds (hq : 0 < q) : 10 ^ Int.log 10 q ≤ q ∧ q < 10 ^ (Int.log 10 q + 1) :=
  ⟨by exact_mod_cast Int.zpow_log_le_self (b := 10) (by norm_num) hq,
    by exact_mod_cast Int.lt_zpow_succ_log_self (b := 10) (by norm_num) q⟩

/-- A power of ten moves the last place along. -/
lemma lastPlace_mul_zpow (hq : q ≠ 0) (k : ℤ) :
    lastPlace digits (q * 10 ^ k) = lastPlace digits q * 10 ^ k := by
  have hk := Decimal.zpow_ten_pos k
  obtain ⟨hlow, hhigh⟩ := zpow_log_bounds (abs_pos.mpr hq)
  have hlog : Int.log 10 |q * 10 ^ k| = Int.log 10 |q| + k := by
    rw [abs_mul, abs_of_pos hk]
    refine log_eq_of_bounds ?_ ?_
    · rw [zpow_add₀ (by norm_num)]
      exact mul_le_mul_of_nonneg_right hlow hk.le
    · rw [add_right_comm, zpow_add₀ (by norm_num)]
      exact mul_lt_mul_of_pos_right hhigh hk
  rw [lastPlace, lastPlace, hlog, ← zpow_add₀ (by norm_num)]
  congr 1
  ring

/-- **Powers of ten** pass through rounding. -/
theorem roundSignificant_mul_zpow (digits : ℕ) (q : ℚ) (k : ℤ) :
    roundSignificant digits (q * 10 ^ k) = roundSignificant digits q * 10 ^ k := by
  rcases eq_or_ne q 0 with rfl | hq
  · simp
  · have hk := Decimal.zpow_ten_pos k
    have hsign : SignType.sign (q * 10 ^ k) = SignType.sign q := by
      rw [sign_mul, sign_pos hk, mul_one]
    rw [roundSignificant, roundSignificant, hsign, lastPlace_mul_zpow hq, abs_mul, abs_of_pos hk,
      mul_div_mul_right _ _ hk.ne', mul_assoc, mul_assoc, mul_assoc]

/-- A whole multiple of its last place is not rounded. -/
lemma roundSignificant_of_multiple {n : ℤ} (h : q = n * lastPlace digits q) :
    roundSignificant digits q = q := by
  have hplace := lastPlace_pos digits q
  have hwhole : |q| / lastPlace digits q = (|n| : ℤ) := by
    rw [div_eq_iff hplace.ne', Int.cast_abs]
    calc |q| = |n * lastPlace digits q| := congrArg abs h
      _ = |(n : ℚ)| * lastPlace digits q := by rw [abs_mul, abs_of_pos hplace]
  have hfloor : ⌊((|n| : ℤ) : ℚ) + 1 / 2⌋ = |n| := by
    rw [Int.floor_intCast_add]
    norm_num
  rw [roundSignificant, hwhole, hfloor, ← hwhole, mul_assoc, div_mul_cancel₀ _ hplace.ne']
  exact sign_mul_abs q

/-- **A number that needs no more digits** is not rounded. -/
theorem roundSignificant_of_fits {m k : ℤ} (hm : |m| < 10 ^ digits) :
    roundSignificant digits (m * 10 ^ k) = m * 10 ^ k := by
  rw [roundSignificant_mul_zpow]
  congr 1
  rcases eq_or_ne m 0 with rfl | hne
  · simp
  · have hpos : (0 : ℚ) < |(m : ℚ)| := abs_pos.mpr (Int.cast_ne_zero.mpr hne)
    -- the last place of an integer with so few digits is one, or a part of it
    have hlog : Int.log 10 |(m : ℚ)| < digits := by
      refine (Int.lt_zpow_iff_log_lt (b := 10) (by norm_num) hpos).mp ?_
      rw [zpow_natCast]
      exact_mod_cast hm
    obtain ⟨j, hj⟩ : ∃ j : ℕ, (j : ℤ) = digits - (Int.log 10 |(m : ℚ)| + 1) :=
      ⟨(digits - (Int.log 10 |(m : ℚ)| + 1)).toNat, by omega⟩
    refine roundSignificant_of_multiple (n := m * 10 ^ j) ?_
    rw [lastPlace, show Int.log 10 |(m : ℚ)| + 1 - digits = -(j : ℤ) by omega, zpow_neg,
      zpow_natCast]
    push_cast
    field_simp

/-- An integer with no more digits stays as it is. -/
lemma roundSignificant_intCast {n : ℤ} (hn : |n| < 10 ^ digits) :
    roundSignificant digits (n : ℚ) = n := by
  simpa only [zpow_zero, mul_one] using roundSignificant_of_fits (k := 0) hn

/-- The size of the sign of a number other than zero. -/
lemma abs_sign (hq : q ≠ 0) : |(SignType.sign q : ℚ)| = 1 := by
  rcases lt_or_gt_of_ne hq with h | h
  · simp [sign_neg h]
  · simp [sign_pos h]

/-- **The relative error of rounding** a rational number is half a unit in the last digit that is
kept. -/
theorem abs_roundSignificant_sub_le (hdigits : 0 < digits) (q : ℚ) :
    |roundSignificant digits q - q| ≤ |q| / (2 * 10 ^ (digits - 1)) := by
  rcases eq_or_ne q 0 with rfl | hq
  · simp
  have hplace := lastPlace_pos digits q
  have hsize := abs_pos.mpr hq
  -- one unit in the last digit, relative to the number
  have hunit : lastPlace digits q ≤ |q| / 10 ^ (digits - 1) := by
    rw [le_div_iff₀ (by positivity), lastPlace, ← zpow_natCast, ← zpow_add₀ (by norm_num)]
    have hexponent : Int.log 10 |q| + 1 - digits + (digits - 1 : ℕ) = Int.log 10 |q| := by omega
    rw [hexponent]
    exact (zpow_log_bounds hsize).1
  have hsplit : roundSignificant digits q - q =
      SignType.sign q * (⌊|q| / lastPlace digits q + 1 / 2⌋ * lastPlace digits q - |q|) := by
    rw [mul_sub, sign_mul_abs, roundSignificant, mul_assoc]
  have hnear : |(⌊|q| / lastPlace digits q + 1 / 2⌋ * lastPlace digits q - |q| : ℚ)| ≤
      lastPlace digits q / 2 := by
    have hlow := Int.floor_le (|q| / lastPlace digits q + 1 / 2)
    have hhigh := Int.lt_floor_add_one (|q| / lastPlace digits q + 1 / 2)
    have hquotient : |q| / lastPlace digits q * lastPlace digits q = |q| :=
      div_mul_cancel₀ _ hplace.ne'
    rw [abs_le]
    constructor <;> nlinarith
  rw [hsplit, abs_mul, abs_sign hq, one_mul]
  calc _ ≤ lastPlace digits q / 2 := hnear
    _ ≤ |q| / 10 ^ (digits - 1) / 2 := by linarith
    _ = |q| / (2 * 10 ^ (digits - 1)) := by rw [div_div, mul_comm]

/-- A positive number stays between the powers of ten around it. -/
lemma roundSignificant_bounds (hdigits : 0 < digits) (hq : 0 < q) :
    10 ^ Int.log 10 q ≤ roundSignificant digits q ∧
      roundSignificant digits q ≤ 10 ^ (Int.log 10 q + 1) := by
  have hplace := lastPlace_pos digits q
  obtain ⟨hlow, hhigh⟩ := zpow_log_bounds hq
  -- both powers of ten in units of the last place
  have hunits : ∀ d : ℕ, (10 : ℚ) ^ d * lastPlace digits q = 10 ^ (Int.log 10 q + 1 - digits + d) := by
    intro d
    rw [lastPlace, abs_of_pos hq, ← zpow_natCast, ← zpow_add₀ (by norm_num), add_comm]
  have hfirst := hunits (digits - 1)
  have hlast := hunits digits
  rw [show Int.log 10 q + 1 - digits + (digits - 1 : ℕ) = Int.log 10 q by omega] at hfirst
  rw [sub_add_cancel] at hlast
  rw [roundSignificant, sign_pos hq, abs_of_pos hq, ← hfirst, ← hlast]
  simp only [SignType.coe_one, one_mul]
  have hlow' : (10 : ℚ) ^ (digits - 1) ≤ q / lastPlace digits q := by
    rwa [le_div_iff₀ hplace, hfirst]
  have hhigh' : q / lastPlace digits q < 10 ^ digits := by
    rwa [div_lt_iff₀ hplace, hlast]
  constructor
  · refine mul_le_mul_of_nonneg_right ?_ hplace.le
    have : ((10 ^ (digits - 1) : ℕ) : ℤ) ≤ ⌊q / lastPlace digits q + 1 / 2⌋ := by
      rw [Int.le_floor]
      push_cast
      linarith
    exact_mod_cast this
  · refine mul_le_mul_of_nonneg_right ?_ hplace.le
    have : ⌊q / lastPlace digits q + 1 / 2⌋ < ((10 ^ digits : ℕ) : ℤ) + 1 := by
      rw [Int.floor_lt]
      push_cast
      linarith
    exact_mod_cast Int.lt_add_one_iff.mp this

/-- Numbers that are not negative stay in order. -/
lemma roundSignificant_le_of_nonneg (hdigits : 0 < digits) (hq : 0 ≤ q) (hle : q ≤ t) :
    roundSignificant digits q ≤ roundSignificant digits t := by
  rcases hq.eq_or_lt with rfl | hq
  · rw [roundSignificant_zero]
    rcases hle.eq_or_lt with rfl | ht
    · exact roundSignificant_zero digits |>.ge
    · exact (Decimal.zpow_ten_pos _).le.trans (roundSignificant_bounds hdigits ht).1
  · have ht := hq.trans_le hle
    rcases (Int.log_mono_right (b := 10) hq hle).eq_or_lt with hlog | hlog
    · -- the last place is the same
      have hplace : lastPlace digits t = lastPlace digits q := by
        rw [lastPlace, lastPlace, abs_of_pos ht, abs_of_pos hq, hlog]
      have hpos := lastPlace_pos digits q
      rw [roundSignificant, roundSignificant, sign_pos hq, sign_pos ht, abs_of_pos hq, abs_of_pos ht,
        hplace]
      refine mul_le_mul_of_nonneg_right (mul_le_mul_of_nonneg_left ?_ zero_le_one) hpos.le
      exact_mod_cast Int.floor_le_floor (add_le_add_left
        (div_le_div_of_nonneg_right hle hpos.le) (1 / 2))
    · -- a power of ten stands between the numbers
      calc roundSignificant digits q ≤ 10 ^ (Int.log 10 q + 1) :=
            (roundSignificant_bounds hdigits hq).2
        _ ≤ 10 ^ Int.log 10 t := zpow_le_zpow_right₀ (by norm_num) hlog
        _ ≤ roundSignificant digits t := (roundSignificant_bounds hdigits ht).1

/-- The sign passes through rounding. -/
lemma roundSignificant_neg (digits : ℕ) (q : ℚ) :
    roundSignificant digits (-q) = -roundSignificant digits q := by
  rw [roundSignificant, roundSignificant, Left.sign_neg, abs_neg, lastPlace, lastPlace, abs_neg]
  push_cast
  ring

/-- **Rounding keeps the order** of numbers. -/
theorem roundSignificant_mono (hdigits : 0 < digits) : Monotone (roundSignificant digits) := by
  intro q t hle
  rcases le_or_gt 0 q with hq | hq
  · exact roundSignificant_le_of_nonneg hdigits hq hle
  · rcases le_or_gt t 0 with ht | ht
    · have h := roundSignificant_le_of_nonneg hdigits (neg_nonneg.mpr ht) (neg_le_neg hle)
      rw [roundSignificant_neg, roundSignificant_neg] at h
      exact neg_le_neg_iff.mp h
    · have hpos := roundSignificant_le_of_nonneg hdigits le_rfl ht.le
      have hneg := roundSignificant_le_of_nonneg hdigits le_rfl (neg_nonneg.mpr hq.le)
      rw [roundSignificant_zero] at hpos hneg
      rw [roundSignificant_neg] at hneg
      linarith

/-- The sign makes no difference. -/
lemma abs_roundSignificant (digits : ℕ) (q : ℚ) :
    |roundSignificant digits q| = roundSignificant digits |q| := by
  rcases eq_or_ne q 0 with rfl | hq
  · simp
  · have hsize := abs_pos.mpr hq
    have hplace := lastPlace_pos digits q
    have hsame : lastPlace digits |q| = lastPlace digits q := by rw [lastPlace, lastPlace, abs_abs]
    have hfloor : (0 : ℚ) ≤ ⌊|q| / lastPlace digits q + 1 / 2⌋ := by
      exact_mod_cast Int.floor_nonneg.mpr (by positivity)
    rw [roundSignificant, roundSignificant, sign_pos hsize, abs_abs, hsame, abs_mul, abs_mul,
      abs_sign hq, abs_of_nonneg hfloor, abs_of_pos hplace, SignType.coe_one]

/-- A number that reaches a power of ten does so after rounding. -/
lemma le_roundSignificant {k : ℤ} (hdigits : 0 < digits) (hk : 10 ^ k ≤ q) :
    10 ^ k ≤ roundSignificant digits q := by
  have hq := (Decimal.zpow_ten_pos k).trans_le hk
  have hlog : k ≤ Int.log 10 q :=
    (Int.zpow_le_iff_le_log (b := 10) (by norm_num) hq).mp (by exact_mod_cast hk)
  exact (zpow_le_zpow_right₀ (by norm_num) hlog).trans (roundSignificant_bounds hdigits hq).1

/-- A number that does not exceed a power of ten does not do so after rounding. -/
lemma roundSignificant_le {k : ℤ} (hdigits : 0 < digits) (hq : 0 < q) (hk : q ≤ 10 ^ k) :
    roundSignificant digits q ≤ 10 ^ k := by
  rcases hk.eq_or_lt with rfl | hless
  · have hfits : roundSignificant digits ((1 : ℤ) * 10 ^ k) = (1 : ℤ) * 10 ^ k := by
      refine roundSignificant_of_fits ?_
      rw [abs_one]
      exact one_lt_pow₀ (by norm_num) hdigits.ne'
    rw [Int.cast_one, one_mul] at hfits
    exact hfits.le
  · have hlog : Int.log 10 q < k :=
      (Int.lt_zpow_iff_log_lt (b := 10) (by norm_num) hq).mp (by exact_mod_cast hless)
    exact (roundSignificant_bounds hdigits hq).2.trans
      (zpow_le_zpow_right₀ (by norm_num) (by omega))

/-- **Neighbours**: whether a positive number is rounded to the lower or to the upper one of two
neighbouring numbers, or beyond them, is decided by the middle between them. -/
theorem roundSignificant_neighbours {n : ℕ} {k : ℤ} (hq : 0 < q) (hdigits : 0 < digits)
    (hlow : 10 ^ (digits - 1) ≤ n) (hhigh : n < 10 ^ digits) :
    (q < (n + 1 / 2) * 10 ^ k ∧ roundSignificant digits q ≤ n * 10 ^ k) ∨
      ((n + 1 / 2) * 10 ^ k ≤ q ∧ (n + 1) * 10 ^ k ≤ roundSignificant digits q) := by
  have hk := Decimal.zpow_ten_pos k
  obtain ⟨hround, hround'⟩ := roundSignificant_bounds hdigits hq
  obtain ⟨hbelow, habove⟩ := zpow_log_bounds hq
  have hn : (10 : ℚ) ^ (k + (digits - 1 : ℕ)) ≤ n * 10 ^ k := by
    rw [add_comm, zpow_add₀ (by norm_num), zpow_natCast]
    exact mul_le_mul_of_nonneg_right (by exact_mod_cast hlow) hk.le
  have hn' : ((n : ℚ) + 1) * 10 ^ k ≤ 10 ^ (k + digits) := by
    rw [add_comm k, zpow_add₀ (by norm_num), zpow_natCast]
    exact mul_le_mul_of_nonneg_right (by exact_mod_cast hhigh) hk.le
  rcases lt_trichotomy (Int.log 10 q + 1 - digits) k with hless | hsame | hmore
  · -- the number has fewer digits in front
    have hle : (10 : ℚ) ^ (Int.log 10 q + 1) ≤ 10 ^ (k + (digits - 1 : ℕ)) :=
      zpow_le_zpow_right₀ (by norm_num) (by omega)
    exact Or.inl ⟨by linarith, by linarith⟩
  · -- the last place of the number is that of the neighbours
    have hplace : lastPlace digits q = 10 ^ k := by rw [lastPlace, abs_of_pos hq, hsame]
    rw [roundSignificant, sign_pos hq, abs_of_pos hq, hplace]
    simp only [SignType.coe_one, one_mul]
    rcases lt_or_ge q ((n + 1 / 2) * 10 ^ k) with hsmall | hlarge
    · refine Or.inl ⟨hsmall, mul_le_mul_of_nonneg_right ?_ hk.le⟩
      have hfloor : ⌊q / 10 ^ k + 1 / 2⌋ < (n : ℤ) + 1 := by
        rw [← div_lt_iff₀ hk] at hsmall
        rw [Int.floor_lt]
        push_cast
        linarith
      exact_mod_cast Int.lt_add_one_iff.mp hfloor
    · refine Or.inr ⟨hlarge, mul_le_mul_of_nonneg_right ?_ hk.le⟩
      have hfloor : (n : ℤ) + 1 ≤ ⌊q / 10 ^ k + 1 / 2⌋ := by
        rw [← le_div_iff₀ hk] at hlarge
        rw [Int.le_floor]
        push_cast
        linarith
      exact_mod_cast hfloor
  · -- the number has more digits in front
    have hle : (10 : ℚ) ^ (k + digits) ≤ 10 ^ Int.log 10 q :=
      zpow_le_zpow_right₀ (by norm_num) (by omega)
    exact Or.inr ⟨by linarith, by linarith⟩

/-- So the middle between two neighbouring numbers decides whether a number reaches the upper one. -/
lemma succ_le_roundSignificant_iff {n : ℕ} {k : ℤ} (hq : 0 < q) (hdigits : 0 < digits)
    (hlow : 10 ^ (digits - 1) ≤ n) (hhigh : n < 10 ^ digits) :
    (n + 1) * 10 ^ k ≤ roundSignificant digits q ↔ (n + 1 / 2) * 10 ^ k ≤ q := by
  have hk := Decimal.zpow_ten_pos k
  rcases roundSignificant_neighbours (k := k) hq hdigits hlow hhigh with ⟨hless, hround⟩ | ⟨hle, hround⟩
  · refine iff_of_false (fun h => ?_) (not_le.mpr hless)
    linarith
  · exact iff_of_true hround hle

/-- A number between the middles on both sides of another one is rounded to that. -/
lemma roundSignificant_eq_of_near {n : ℕ} {k : ℤ} (hdigits : 0 < digits)
    (hlow : 10 ^ (digits - 1) ≤ n) (hhigh : n + 1 < 10 ^ digits) (hle : (n + 1 / 2) * 10 ^ k ≤ q)
    (hlt : q < (n + 1 + 1 / 2) * 10 ^ k) : roundSignificant digits q = (n + 1) * 10 ^ k := by
  have hk := Decimal.zpow_ten_pos k
  have hq : 0 < q := lt_of_lt_of_le (mul_pos (by positivity) hk) hle
  refine le_antisymm ?_
    ((succ_le_roundSignificant_iff hq hdigits hlow (Nat.lt_of_succ_lt hhigh)).mpr hle)
  have hround := roundSignificant_neighbours (n := n + 1) (k := k) hq hdigits (by omega) hhigh
  push_cast at hround
  rcases hround with ⟨-, hround⟩ | ⟨hmore, -⟩
  · exact hround
  · linarith

/-- **The number that rounding comes to**: a positive number is rounded to the multiple of its last
place that is nearest to it, the upper one of two. -/
theorem roundSignificant_eq_iff {w : ℚ} (hq : 0 < q) :
    roundSignificant digits q = w ↔ (∃ n : ℤ, w = n * lastPlace digits q) ∧
      w - lastPlace digits q / 2 ≤ q ∧ q < w + lastPlace digits q / 2 := by
  have hplace := lastPlace_pos digits q
  have hround : roundSignificant digits q = ⌊q / lastPlace digits q + 1 / 2⌋ * lastPlace digits q := by
    rw [roundSignificant, sign_pos hq, abs_of_pos hq, SignType.coe_one, one_mul]
  have hunits : ∀ n : ℤ, ⌊q / lastPlace digits q + 1 / 2⌋ = n ↔
      n * lastPlace digits q - lastPlace digits q / 2 ≤ q ∧
        q < n * lastPlace digits q + lastPlace digits q / 2 := by
    intro n
    rw [Int.floor_eq_iff, ← sub_le_iff_le_add, le_div_iff₀ hplace, ← lt_sub_iff_add_lt,
      div_lt_iff₀ hplace]
    constructor <;> rintro ⟨hlow, hhigh⟩ <;> constructor <;> linarith
  rw [hround]
  constructor
  · rintro rfl
    exact ⟨⟨_, rfl⟩, (hunits _).mp rfl⟩
  · rintro ⟨⟨n, rfl⟩, hnear⟩
    rw [(hunits n).mpr hnear]

/-- Cutting the fraction off a large number leaves its first digit where it is. -/
lemma log_floor (hq : 1 ≤ q) : Int.log 10 (⌊q⌋ : ℚ) = Int.log 10 q := by
  have hpos : 0 < q := one_pos.trans_le hq
  obtain ⟨hlow, hhigh⟩ := zpow_log_bounds hpos
  have hlog : 0 ≤ Int.log 10 q := by
    refine (Int.zpow_le_iff_le_log (b := 10) (by norm_num) hpos).mp ?_
    simpa using hq
  refine log_eq_of_bounds ?_ ((Int.floor_le q).trans_lt hhigh)
  -- the power of ten is an integer itself
  obtain ⟨j, hj⟩ := Int.eq_ofNat_of_zero_le hlog
  rw [hj, zpow_natCast] at hlow ⊢
  have hwhole : ((10 ^ j : ℤ) : ℚ) ≤ q := by
    push_cast
    exact hlow
  have := Int.le_floor.mpr hwhole
  exact_mod_cast this

/-- Half of an even number added, the whole part of a quotient does not see a fraction. -/
lemma floor_add_half (a : ℚ) {h : ℕ} (hh : 0 < h) :
    ⌊a / (2 * h : ℕ) + 1 / 2⌋ = ⌊(⌊a⌋ : ℚ) / (2 * h : ℕ) + 1 / 2⌋ := by
  have hpos : (0 : ℚ) < h := by exact_mod_cast hh
  have half : ∀ b : ℚ, b / (2 * h : ℕ) + 1 / 2 = (b + (h : ℤ)) / (2 * h : ℕ) := by
    intro b
    push_cast
    field_simp
  rw [half, half, Int.floor_div_natCast, Int.floor_div_natCast, Int.floor_add_intCast,
    Int.floor_add_intCast, Int.floor_intCast]

/-- A number that is not far from a large one has its sign. -/
lemma sign_eq_of_abs_sub_lt (hnear : |t - q| < 1) (hq : 1 ≤ |q|) :
    SignType.sign t = SignType.sign q := by
  obtain ⟨hlow, hhigh⟩ := abs_lt.mp hnear
  rcases le_or_gt 0 q with h | h
  · rw [abs_of_nonneg h] at hq
    rw [sign_pos (by linarith), sign_pos (by linarith)]
  · rw [abs_of_neg h] at hq
    rw [sign_neg (by linarith), sign_neg h]

/-- **Truncation**: a number with more digits than are kept is rounded as its whole part is. -/
theorem roundSignificant_of_truncated (hnear : |t - q| < 1) (hwhole : |t| = ⌊|q|⌋)
    (hlarge : 10 ^ digits ≤ |q|) : roundSignificant digits t = roundSignificant digits q := by
  have hone : 1 ≤ |q| := (one_le_pow₀ (by norm_num)).trans hlarge
  have hsign := sign_eq_of_abs_sub_lt hnear hone
  have hplace : lastPlace digits t = lastPlace digits q := by
    rw [lastPlace, lastPlace, hwhole, log_floor hone]
  -- at least one digit in front of the point is dropped, so that the last place is even
  have hlog : (digits : ℤ) ≤ Int.log 10 |q| := by
    refine (Int.zpow_le_iff_le_log (b := 10) (by norm_num) (one_pos.trans_le hone)).mp ?_
    rw [zpow_natCast]
    exact_mod_cast hlarge
  obtain ⟨j, hj⟩ : ∃ j : ℕ, (j : ℤ) = Int.log 10 |q| - digits :=
    ⟨(Int.log 10 |q| - digits).toNat, by omega⟩
  have heven : lastPlace digits q = (2 * (5 * 10 ^ j) : ℕ) := by
    rw [lastPlace, show Int.log 10 |q| + 1 - digits = (j + 1 : ℕ) by push_cast; omega, zpow_natCast,
      pow_succ]
    push_cast
    ring
  rw [roundSignificant, roundSignificant, hsign, hplace, hwhole, heven,
    floor_add_half |q| (by positivity)]

/-! ### Rounding of decimals -/

namespace Decimal

variable {x y : Decimal}

/-- The first digit of a decimal is that of its number. -/
lemma log_abs_toRat (hx : x.toRat ≠ 0) : Int.log 10 |x.toRat| = x.magnitude :=
  log_eq_of_bounds (zpow_magnitude_le hx) (lt_zpow_magnitude x)

/-- The last place that rounding keeps is that of the number. -/
lemma lastPlace_toRat (hx : x.toRat ≠ 0) (digits : ℕ) :
    lastPlace digits x.toRat = x.place digits := by
  rw [lastPlace, log_abs_toRat hx, place]

/-- The sign of a decimal is that of its mantissa. -/
lemma sign_toRat (x : Decimal) : (SignType.sign x.toRat : ℚ) = (x.mantissa.sign : ℤ) := by
  rcases sign_mantissa x with ⟨hm, hx⟩ | ⟨hm, hx⟩ | ⟨hm, hx⟩
  · rw [hm, sign_pos hx]
    rfl
  · rw [hm, hx, sign_zero]
    rfl
  · rw [hm, sign_neg hx]
    rfl

/-- **Rounding a decimal** rounds its number. -/
theorem toRat_round (hdigits : 0 < digits) (x : Decimal) :
    (x.round digits).toRat = roundSignificant digits x.toRat := by
  rcases le_or_gt x.precision digits with h | h
  · rw [round_of_le h]
    have hdigitCount := (digitCount_le_iff hdigits).mp h
    refine (roundSignificant_of_fits ?_).symm
    rw [Int.abs_eq_natAbs]
    exact_mod_cast hdigitCount
  · have hx : x.toRat ≠ 0 := fun hzero => by
      have := precision_of_toRat_eq_zero hzero
      omega
    have hd : 0 < 10 ^ (x.precision - digits) := by positivity
    -- the size of the number in units of the last place
    have hsize : |x.toRat| / x.place digits =
        (x.mantissa.natAbs : ℚ) / (10 ^ (x.precision - digits) : ℕ) := by
      have hunit := zpow_ten_pos (-x.scale)
      rw [place_eq h, toRat, abs_mul, abs_of_pos hunit, mul_div_mul_right _ _ hunit.ne',
        ← Int.cast_abs, Int.abs_eq_natAbs, Int.cast_natCast]
    rw [round_eq hdigits h, divideHalfAway_eq _ hd, roundSignificant, lastPlace_toRat hx, hsize,
      sign_toRat]
    generalize 10 ^ (x.precision - digits) = d at hd ⊢
    have hhalf : (x.mantissa.natAbs : ℚ) / d + 1 / 2 =
        ((2 * x.mantissa.natAbs + d : ℕ) : ℤ) / (2 * d : ℕ) := by
      have hd' : (0 : ℚ) < d := by exact_mod_cast hd
      rw [Int.cast_natCast, Nat.cast_add, Nat.cast_mul, Nat.cast_mul, Nat.cast_ofNat]
      field_simp
    rw [hhalf, Rat.floor_intCast_div_natCast]
    push_cast
    rfl

/-- A number with no more digits stays as it is. -/
lemma roundSignificant_toRat (hdigits : 0 < digits) (h : x.precision ≤ digits) :
    roundSignificant digits x.toRat = x.toRat := by
  rw [← toRat_round hdigits, round_of_le h]

/-! ### Products and quotients -/

/-- The truncated quotient of two integers is the whole part of the quotient, with its sign. -/
lemma abs_tdiv_eq_floor (n d : ℤ) : |((n.tdiv d : ℤ) : ℚ)| = ⌊|(n : ℚ) / d|⌋ := by
  rw [abs_div, ← Int.cast_abs, ← Int.cast_abs, ← Int.cast_abs, Int.abs_eq_natAbs,
    Int.abs_eq_natAbs, Int.abs_eq_natAbs, Int.natAbs_tdiv, Int.cast_natCast d.natAbs,
    Rat.floor_intCast_div_natCast]
  rfl

/-- **A quotient** of numbers other than zero is the quotient of the numbers, rounded once. -/
theorem toRat_div_of_ne_zero (hx : x.toRat ≠ 0) (hy : y.toRat ≠ 0) :
    (x / y).toRat = roundSignificant workingDigits (x.toRat / y.toRat) := by
  have hlarge := le_abs_quotient hx hy
  have htruncated : (x.truncatedQuotient y).toRat =
      (((x.mantissa * tenPow (x.quotientShift y)).tdiv y.mantissa : ℤ) : ℚ) *
        10 ^ (-(x.scale - y.scale + x.quotientShift y)) := rfl
  rw [div_eq_round ((isZero_eq_false_iff x).mpr hx), toRat_round workingDigits_pos, htruncated,
    toRat_div_eq hy, roundSignificant_mul_zpow, roundSignificant_mul_zpow]
  congr 1
  exact roundSignificant_of_truncated (abs_tdiv_sub_lt _ (mantissa_ne_zero hy)).1
    (abs_tdiv_eq_floor _ _) hlarge

/-- A product is that of the numbers, rounded once. -/
lemma toRat_mul (x y : Decimal) :
    (x * y).toRat = roundSignificant workingDigits (x.toRat * y.toRat) := by
  rw [← toRat_product]
  exact toRat_round workingDigits_pos _

/-- A quotient is that of the numbers, rounded once, if zero is taken for the quotients that do not
exist. -/
lemma toRat_div (x y : Decimal) :
    (x / y).toRat = roundSignificant workingDigits (x.toRat / y.toRat) := by
  rcases eq_or_ne x.toRat 0 with hx | hx
  · rw [div_eq_zero ((isZero_iff x).mpr hx), hx, toRat_zero, zero_div, roundSignificant_zero]
  rcases eq_or_ne y.toRat 0 with hy | hy
  · have hmantissa : y.mantissa = 0 := of_decide_eq_true ((isZero_iff y).mpr hy)
    have hquotient : (x.truncatedQuotient y).toRat = 0 := by
      simp [truncatedQuotient, hmantissa, toRat]
    rw [div_eq_round ((isZero_eq_false_iff x).mpr hx), toRat_round workingDigits_pos, hquotient, hy,
      div_zero]
  · exact toRat_div_of_ne_zero hx hy

/-- A quotient by a whole number is that of the numbers, rounded once. -/
lemma toRat_dividedBy (x : Decimal) (n : ℕ) :
    (x.dividedBy n).toRat = roundSignificant workingDigits (x.toRat / n) := by
  rw [dividedBy, toRat_div, toRat_ofInt, Int.cast_natCast]

end Decimal

end DecimalCalculator
