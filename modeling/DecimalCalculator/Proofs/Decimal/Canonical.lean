import DecimalCalculator.Proofs.Decimal.Equality
import DecimalCalculator.Proofs.Decimal.Rendering

/-!
The canonical form of a number.

* `digitsOf_mul_pow`: a power of ten adds zeros to the digits of a number.
* `Decimal.IsTrimmed`: no zero ends the fraction. `Decimal.IsTrimmed.scale_le`: among the decimals of
  a number the trimmed ones have the fewest places.
* `Decimal.plain_filled`: zeros before the point are shown, whether they are stored or left to the scale.
* `Decimal.equiv_of_plain_eq`: **the plain form determines the number.**
* `Decimal.equiv_iff_canonical_eq`: **the canonical form** is the same text for equal numbers, and for
  no others.
-/

namespace DecimalCalculator

/-- A power of ten adds zeros to the digits of a number. -/
lemma digitsOf_mul_pow {n : ℕ} (hn : 0 < n) (k : ℕ) : digitsOf (n * 10 ^ k) = digitsOf n ++ zeros k := by
  induction k with
  | zero => simp [zeros]
  | succ k ih =>
    have hpos : 0 < n * 10 ^ k := by positivity
    have htenth : n * 10 ^ (k + 1) = n * 10 ^ k * 10 := by ring
    rw [htenth, digitsOf_of_le (by omega), Nat.mul_div_cancel _ (by norm_num), Nat.mul_mod_left, ih,
      zeros, zeros, List.replicate_succ', List.append_assoc]
    rfl

namespace Decimal

variable {x y : Decimal}

/-! ### Places behind the point -/

/-- There are no places behind the point, or the last of them is not zero. -/
def IsTrimmed (x : Decimal) : Prop := x.scale ≤ 0 ∨ ¬ (10 : ℤ) ∣ x.mantissa

/-- Taking off zeros leaves none. -/
lemma isTrimmed_stripZeros (s : ℕ) (m : ℤ) : (stripZeros s m).IsTrimmed := by
  induction s generalizing m with
  | zero => exact .inl le_rfl
  | succ s ih =>
    rw [stripZeros]
    split
    · exact ih _
    · next hlast => exact .inr fun hdvd => hlast (Int.tmod_eq_zero_of_dvd hdvd)

/-- A trimmed fraction is trimmed. -/
lemma isTrimmed_trimFraction (x : Decimal) : x.trimFraction.IsTrimmed := by
  rw [trimFraction]
  split
  · exact .inl le_rfl
  · split
    · next hscale => exact .inl hscale
    · exact isTrimmed_stripZeros _ _

/-- **A trimmed decimal** with places behind the point has no more of them than any decimal of its
number. -/
lemma IsTrimmed.scale_le (hx : x.IsTrimmed) (h : x ≈ y) (hscale : 0 < x.scale) :
    x.scale ≤ y.scale := by
  by_contra hless
  rw [not_le] at hless
  -- the mantissa would be that of the other decimal with zeros at its end
  have hmantissa := mantissaAt_congr h le_rfl hless.le
  obtain ⟨k, hk⟩ : ∃ k, (x.scale - y.scale).toNat = k + 1 :=
    Nat.exists_eq_add_one_of_ne_zero (by omega)
  rw [mantissaAt, mantissaAt, sub_self, Int.toNat_zero, hk, tenPow_eq, tenPow_eq, pow_zero, pow_succ]
    at hmantissa
  refine hx.elim (fun hnonpos => absurd hscale (not_lt.mpr hnonpos)) fun hlast => hlast ?_
  refine ⟨y.mantissa * 10 ^ k, ?_⟩
  push_cast at hmantissa
  linear_combination hmantissa

/-- Trimmed decimals of one number have as many places. -/
lemma IsTrimmed.places_eq (hx : x.IsTrimmed) (hy : y.IsTrimmed) (h : x ≈ y) :
    max x.scale 0 = max y.scale 0 := by
  have hle := hx.scale_le h
  have hge := hy.scale_le (equiv_iff.mpr (equiv_iff.mp h).symm)
  omega

/-! ### Zeros before the point -/

/-- The decimal with the zeros before its point written out. -/
def filled (x : Decimal) : Decimal := ⟨x.mantissaAt (max x.scale 0), max x.scale 0⟩

/-- Writing out zeros keeps the number. -/
lemma filled_equiv (x : Decimal) : x.filled ≈ x :=
  equiv_iff.mpr (toRat_eq_mantissaAt (le_max_left _ _)).symm

/-- The digits with the zeros before the point. -/
lemma digits_filled (hscale : x.scale ≤ 0) (hne : x.mantissa ≠ 0) :
    x.filled.digits = x.digits ++ zeros (-x.scale).toNat := by
  rw [digits, digits, filled, max_eq_right hscale, mantissaAt, zero_sub, Int.natAbs_mul, tenPow_eq,
    Int.natAbs_natCast, digitsOf_mul_pow (Int.natAbs_pos.mpr hne)]

/-- Zeros before the point are shown in the plain form. -/
lemma plain_filled (x : Decimal) : x.filled.plain = x.plain := by
  rcases lt_or_ge 0 x.scale with hpos | hnonpos
  · have hfilled : x.filled = x := by
      rw [filled, max_eq_left hpos.le, mantissaAt, sub_self, Int.toNat_zero, tenPow_eq, pow_zero,
        Nat.cast_one, mul_one]
    rw [hfilled]
  · have hscale : x.filled.scale = 0 := max_eq_right hnonpos
    rw [plain, plain, isZero_congr x.filled_equiv]
    split
    · rfl
    · next hne =>
      rw [isZero, decide_eq_true_eq] at hne
      simp only [hscale, le_refl, if_true, withSign, isNegative_congr x.filled_equiv,
        digits_filled hnonpos hne, neg_zero, Int.toNat_zero, zeros, List.replicate_zero,
        List.append_nil]

/-- Trimmed decimals of one number are filled alike. -/
lemma filled_eq (hx : x.IsTrimmed) (hy : y.IsTrimmed) (h : x ≈ y) : x.filled = y.filled := by
  have hplaces := hx.places_eq hy h
  rw [filled, filled, hplaces,
    mantissaAt_congr h (hplaces ▸ le_max_left _ _) (le_max_left _ _)]

/-! ### Canonical forms -/

/-- **The plain form determines the number**, whatever the scale. -/
theorem equiv_of_plain_eq (h : x.plain = y.plain) : x ≈ y := by
  obtain ⟨p, hp, -⟩ := x.plain_spells
  obtain ⟨q, hq, -⟩ := y.plain_spells
  rw [← h] at hq
  exact hp.equiv hq

/-- **The canonical form**: decimals are of one number just if they are shown as one text, at whatever
scales they are held. -/
theorem equiv_iff_canonical_eq (x y : Decimal) : x ≈ y ↔ x.canonical = y.canonical := by
  have hx := equiv_iff.mpr (trimFraction_spec x).1
  have hy := equiv_iff.mpr (trimFraction_spec y).1
  rw [← equiv_congr hx hy, canonical, canonical]
  constructor
  · intro h
    rw [← plain_filled x.trimFraction, ← plain_filled y.trimFraction,
      filled_eq (isTrimmed_trimFraction x) (isTrimmed_trimFraction y) h]
  · exact equiv_of_plain_eq

/-- `-100.0` and `-1e2` are shown alike. -/
example : (⟨-1000, 1⟩ : Decimal).canonical = ['-', '1', '0', '0'] ∧
    (⟨-1, -2⟩ : Decimal).canonical = ['-', '1', '0', '0'] := by decide

end Decimal

end DecimalCalculator
