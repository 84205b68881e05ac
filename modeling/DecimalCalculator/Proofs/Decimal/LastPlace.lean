import DecimalCalculator.Proofs.Decimal.Significant

/-!
Rounding in units of the last place.

* `abs_roundSignificant_sub_le_half`: rounding moves a number by half a unit of its last place at
  most.
* `abs_roundSignificant_sub_le_lastPlace`: **a number that is off by half a unit** is off by a unit
  after it is rounded, also where rounding crosses a power of ten.
-/

namespace DecimalCalculator

variable {digits : ℕ} {q t : ℚ}

/-- A number is less than one unit before its first digit. -/
lemma abs_lt_lastPlace (hq : q ≠ 0) : |q| < 10 ^ digits * lastPlace digits q := by
  calc |q| < 10 ^ (Int.log 10 |q| + 1) := (zpow_log_bounds (abs_pos.mpr hq)).2
    _ = 10 ^ digits * lastPlace digits q := by
      rw [lastPlace, ← zpow_natCast, ← zpow_add₀ (by norm_num)]
      congr 1
      ring

/-- The last place of a number is no larger than what its first digit stands for. -/
lemma lastPlace_le_zpow_log (hdigits : 0 < digits) (q : ℚ) :
    lastPlace digits q ≤ 10 ^ Int.log 10 |q| :=
  zpow_le_zpow_right₀ (by norm_num) (by omega)

/-- Rounding moves a number by half a unit of its last place at most. -/
lemma abs_roundSignificant_sub_le_half (digits : ℕ) (q : ℚ) :
    |roundSignificant digits q - q| ≤ lastPlace digits q / 2 := by
  have hpositive : ∀ {t : ℚ}, 0 < t →
      |roundSignificant digits t - t| ≤ lastPlace digits t / 2 := by
    intro t ht
    have hround : roundSignificant digits t = roundSignificant digits t := rfl
    obtain ⟨-, hlow, hhigh⟩ := (roundSignificant_eq_iff ht).mp hround
    rw [abs_le]
    constructor <;> linarith
  rcases lt_trichotomy q 0 with hneg | rfl | hpos
  · have h := hpositive (neg_pos.mpr hneg)
    rwa [roundSignificant_neg, neg_sub_neg, abs_sub_comm, lastPlace, abs_neg, ← lastPlace] at h
  · simpa using (half_pos (lastPlace_pos digits 0)).le
  · exact hpositive hpos

/-- The last place of a number is not before that of the rounded number. -/
lemma lastPlace_le_lastPlace_roundSignificant (hdigits : 0 < digits) (q : ℚ) :
    lastPlace digits q ≤ lastPlace digits (roundSignificant digits q) := by
  rcases eq_or_ne q 0 with rfl | hq
  · rw [roundSignificant_zero]
  have hlow := (roundSignificant_bounds hdigits (abs_pos.mpr hq)).1
  rw [← abs_roundSignificant] at hlow
  have hlog : Int.log 10 |q| ≤ Int.log 10 |roundSignificant digits q| := by
    refine (Int.zpow_le_iff_le_log (b := 10) (by norm_num) ?_).mp (by exact_mod_cast hlow)
    exact (Decimal.zpow_ten_pos _).trans_le hlow
  exact zpow_le_zpow_right₀ (by norm_num) (by omega)

/-- The positive case: where rounding crosses a power of ten it comes to that power. -/
lemma abs_roundSignificant_sub_le_lastPlace_of_pos (hdigits : 0 < digits) (hq : 0 < q)
    (h : |t - q| ≤ lastPlace digits q / 2) :
    |roundSignificant digits t - q| ≤ lastPlace digits q := by
  obtain ⟨hlow, hhigh⟩ := zpow_log_bounds hq
  have hfirst := lastPlace_le_zpow_log hdigits q
  rw [abs_of_pos hq] at hfirst
  obtain ⟨hbelow, habove⟩ := abs_le.mp h
  have hplace := lastPlace_pos digits q
  have ht : 0 < t := by linarith
  by_cases hcross : t < 10 ^ (Int.log 10 q + 1)
  · -- the last place is no larger than that of the number
    have hlog : Int.log 10 t ≤ Int.log 10 q := by
      have := (Int.lt_zpow_iff_log_lt (b := 10) (by norm_num) ht).mp (by exact_mod_cast hcross)
      omega
    have hle : lastPlace digits t ≤ lastPlace digits q := by
      rw [lastPlace, lastPlace, abs_of_pos ht, abs_of_pos hq]
      exact zpow_le_zpow_right₀ (by norm_num) (by omega)
    have hround := abs_roundSignificant_sub_le_half digits t
    calc |roundSignificant digits t - q| ≤ |roundSignificant digits t - t| + |t - q| :=
          abs_sub_le _ _ _
      _ ≤ lastPlace digits q := by linarith
  · -- the power of ten that is crossed is the number nearest to it
    rw [not_lt] at hcross
    have hten : (10 : ℚ) ^ (Int.log 10 q + 1 + 1) = 10 ^ (Int.log 10 q + 1) * 10 :=
      zpow_add_one₀ (by norm_num) _
    have hpower := Decimal.zpow_ten_pos (Int.log 10 q + 1)
    have hfirst' : (10 : ℚ) ^ Int.log 10 q ≤ 10 ^ (Int.log 10 q + 1) :=
      zpow_le_zpow_right₀ (by norm_num) (by omega)
    have hlog : Int.log 10 t = Int.log 10 q + 1 := log_eq_of_bounds hcross (by linarith)
    have hplace' : lastPlace digits t = lastPlace digits q * 10 := by
      rw [lastPlace, lastPlace, abs_of_pos ht, abs_of_pos hq, hlog, ← zpow_add_one₀ (by norm_num)]
      congr 1
      ring
    have hround : roundSignificant digits t = 10 ^ (Int.log 10 q + 1) := by
      refine (roundSignificant_eq_iff ht).mpr ⟨⟨10 ^ (digits - 1), ?_⟩, by linarith, by linarith⟩
      rw [lastPlace, abs_of_pos ht, hlog, Int.cast_pow, ← zpow_natCast, Int.cast_ofNat,
        ← zpow_add₀ (by norm_num)]
      congr 1
      omega
    rw [hround, abs_of_pos (by linarith)]
    linarith

/-- A number that is off by half a unit of the last place is off by a unit after it is rounded. -/
theorem abs_roundSignificant_sub_le_lastPlace (hdigits : 0 < digits) (hq : q ≠ 0)
    (h : |t - q| ≤ lastPlace digits q / 2) :
    |roundSignificant digits t - q| ≤ lastPlace digits q := by
  rcases lt_or_gt_of_ne hq with hneg | hpos
  · have hplace : lastPlace digits (-q) = lastPlace digits q := by
      rw [lastPlace, abs_neg, ← lastPlace]
    have hmirrored := abs_roundSignificant_sub_le_lastPlace_of_pos (t := -t) hdigits
      (neg_pos.mpr hneg) (by rwa [hplace, neg_sub_neg, abs_sub_comm])
    rwa [hplace, roundSignificant_neg, neg_sub_neg, abs_sub_comm] at hmirrored
  · exact abs_roundSignificant_sub_le_lastPlace_of_pos hdigits hpos h

end DecimalCalculator
