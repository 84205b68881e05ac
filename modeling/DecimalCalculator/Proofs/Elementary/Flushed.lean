import DecimalCalculator.Proofs.Elementary.CircularZeros
import DecimalCalculator.Proofs.Elementary.Equality
import DecimalCalculator.Proofs.Elementary.InverseHyperbolic
import DecimalCalculator.Proofs.Elementary.UnitInterval

/-!
Results that are zero or reach the threshold.

* `IsFlushed`: such a number. `Yields`: a computation whose results have a property.
* `exp_isFlushed` and so on: **functions that flush** their results have such results only, and so have
  those that end in one of them.
* `tan_isFlushed`, `cot_isFlushed`: **quotients of sine and cosine** too, since neither comes near to
  the threshold without being flushed.
* `arctanArgument`: where the series of the inverse tangent is summed, which `arctan_eq_turnBack` says
  and `abs_arctanArgument_le` bounds.
* `abs_arctanSeries_sum_le`: the series stays near to its argument, whence `arctan_isArc`: **inverse
  circular functions** are a flushed angle, or differ from one by a quarter of a turn.
-/

namespace DecimalCalculator.Elementary

open Decimal

variable {x y v : Decimal}

/-! ### Flushed numbers -/

/-- Zero, or at least the threshold in size. -/
def IsFlushed (x : Decimal) : Prop := x.toRat = 0 ∨ 1 / 10 ^ 30 ≤ |x.toRat|

lemma isFlushed_zero : IsFlushed 0 := Or.inl toRat_zero

lemma IsFlushed.neg (h : IsFlushed x) : IsFlushed (-x) := by
  rwa [IsFlushed, toRat_neg, neg_eq_zero, abs_neg]

lemma isFlushed_flush (x : Decimal) : IsFlushed (flush x) := by
  rcases lt_or_ge |x.toRat| (1 / 10 ^ 30) with hsmall | hlarge
  · rw [flush_of_lt hsmall]
    exact isFlushed_zero
  · rw [flush_of_le hlarge]
    exact Or.inr hlarge

/-- A rounded number that reaches the threshold before rounding is flushed. -/
lemma isFlushed_of_round {q : ℚ} (hv : |v.toRat| = roundSignificant workingDigits q)
    (h : 1 / 10 ^ 30 ≤ q) : IsFlushed v := by
  have hpow : (1 : ℚ) / 10 ^ 30 = 10 ^ (-30 : ℤ) := by norm_num [zpow_neg]
  right
  rw [hv, hpow]
  exact le_roundSignificant workingDigits_pos (hpow ▸ h)

/-- A rounded number is not flushed if it stays below the middle between the threshold and the number
before it. -/
lemma not_isFlushed_of_round {q : ℚ} (hv : |v.toRat| = roundSignificant workingDigits q)
    (hpos : 0 < q) (h : q < 1 / 10 ^ 30 - 1 / (2 * 10 ^ 62)) : ¬ IsFlushed v := by
  have hround := roundSignificant_neighbours (n := 10 ^ 32 - 1) (k := -62) hpos workingDigits_pos
    (by norm_num [workingDigits]) (by norm_num [workingDigits])
  rintro (hzero | hlarge)
  · rw [hzero, abs_zero] at hv
    have := (zpow_ten_pos _).trans_le (roundSignificant_bounds workingDigits_pos hpos).1
    linarith
  · rw [hv] at hlarge
    norm_num [zpow_neg] at hround hlarge h
    rcases hround with ⟨-, hless⟩ | ⟨hmore, -⟩ <;> linarith

/-- A computation of two steps has a result where both have. -/
lemma bind_eq_ok_iff {α β : Type} {r : Except Failure α} {next : α → Except Failure β} {b : β} :
    (r >>= next) = .ok b ↔ ∃ a, r = .ok a ∧ next a = .ok b := by
  cases r <;> simp [Bind.bind, Except.bind]

/-- A computation whose result, if it has one, has a property. -/
def Yields {α : Type} (P : α → Prop) (r : Except Failure α) : Prop := ∀ a, r = .ok a → P a

namespace Yields

variable {α β : Type} {P : α → Prop} {Q : β → Prop}

lemma ok {a : α} (h : P a) : Yields P (.ok a) := fun _ heq => Except.ok.inj heq ▸ h

lemma error (f : Failure) : Yields P (.error f) := fun _ heq => absurd heq (by simp)

/-- The last step of a computation decides. -/
lemma bind {r : Except Failure α} {next : α → Except Failure β}
    (h : ∀ a, r = .ok a → Yields Q (next a)) : Yields Q (r >>= next) := by
  intro b hb
  obtain ⟨a, ha, hnext⟩ := bind_eq_ok_iff.mp hb
  exact h a ha b hnext

/-- So do the branches of a case distinction. -/
lemma ite {p : Prop} [Decidable p] {r r' : Except Failure α} (h : p → Yields P r)
    (h' : ¬p → Yields P r') : Yields P (if p then r else r') := by
  split
  · next hp => exact h hp
  · next hp => exact h' hp

end Yields

/-! ### Functions that flush -/

lemma exp_isFlushed (x : Decimal) : Yields IsFlushed (exp x) := by
  unfold exp
  dsimp only
  split
  · exact .ite (fun _ => .ok isFlushed_zero) fun _ => .error _
  · refine .ite (fun _ => ?_) fun _ => ?_ <;>
    · refine .bind fun value _ => .ok (isFlushed_flush value)

lemma ln_isFlushed (x : Decimal) : Yields IsFlushed (ln x) :=
  .ite (fun _ => .error _) fun _ =>
    .ite (fun _ => .ok isFlushed_zero) fun _ => .ok (isFlushed_flush _)

lemma sqrt_isFlushed (x : Decimal) : Yields IsFlushed (sqrt x) :=
  .ite (fun _ => .error _) fun _ =>
    .ite (fun _ => .ok isFlushed_zero) fun _ => .bind fun _ _ => exp_isFlushed _

lemma isFlushed_sin (x : Decimal) : IsFlushed (sin x) := by
  rw [sin]
  split
  · exact (isFlushed_flush _).neg
  · exact isFlushed_flush _

lemma isFlushed_cos (x : Decimal) : IsFlushed (cos x) := isFlushed_flush _

lemma arcsinh_isFlushed (x : Decimal) : Yields IsFlushed (arcsinh x) :=
  .bind fun _ _ => ln_isFlushed _

lemma arccosh_isFlushed (x : Decimal) : Yields IsFlushed (arccosh x) :=
  .ite (fun _ => .error _) fun _ => .bind fun _ _ => ln_isFlushed _

lemma arcsech_isFlushed (x : Decimal) : Yields IsFlushed (arcsech x) :=
  .ite (fun _ => .error _) fun _ => .bind fun _ _ => arccosh_isFlushed _

lemma arccsch_isFlushed (x : Decimal) : Yields IsFlushed (arccsch x) :=
  .ite (fun _ => .error _) fun _ => .bind fun _ _ => arcsinh_isFlushed _

/-! ### Quotients -/

/-- A quotient is the rounded one, if the divisor is not zero. -/
lemma quotientOr_eq_ok_iff {undefined : Failure} :
    quotientOr undefined x y = .ok v ↔ y.toRat ≠ 0 ∧ x / y = v := by
  rw [quotientOr, quotient?]
  cases hzero : y.isZero
  · simp [(isZero_eq_false_iff y).mp hzero]
  · simp [(isZero_iff y).mp hzero]

/-- Quotients whose divisor is not much larger are flushed. -/
lemma quotientOr_isFlushed {undefined : Failure}
    (h : y.toRat ≠ 0 → x.toRat = 0 ∨ |y.toRat| ≤ 10 ^ 30 * |x.toRat|) :
    Yields IsFlushed (quotientOr undefined x y) := by
  intro v hv
  obtain ⟨hy, rfl⟩ := quotientOr_eq_ok_iff.mp hv
  rcases h hy with hzero | hlarge
  · left
    rw [toRat_div, hzero, zero_div, roundSignificant_zero]
  · refine isFlushed_of_round (q := |x.toRat| / |y.toRat|) ?_ ?_
    · rw [toRat_div, abs_roundSignificant, abs_div]
    · rw [div_le_div_iff₀ (by positivity) (abs_pos.mpr hy)]
      linarith

/-! ### Circular functions -/

/-- A sine that is not zero exceeds the threshold clearly, unless the angle is very small. -/
lemma abs_sin_cases (x : Decimal) :
    (sin x).toRat = 0 ∨ 103 / 10 ^ 32 ≤ |(sin x).toRat| ∨ (reduceAngle x.abs).toRat ≤ 22 / 10 ^ 31 := by
  set sum := (alternatingSeries (reduceAngle x.abs) (reduceAngle x.abs) 2).sum with hsum
  rcases lt_or_ge |sum.toRat| (103 / 10 ^ 32) with hsmall | hlarge
  · rcases sine_sum_small (by simp) hsmall with hangle | ⟨hzero, -⟩
    · exact Or.inr (Or.inr hangle)
    · exact Or.inl (sin_eq_zero_iff.mpr hzero)
  · have hvalue : |(sin x).toRat| = |sum.toRat| := by
      have hkept := flush_of_le (le_trans (by norm_num) hlarge)
      rw [sin, ← hsum, hkept]
      split
      · rw [toRat_neg, abs_neg]
      · rfl
    exact Or.inr (Or.inl (hvalue ▸ hlarge))

/-- A cosine that is not zero exceeds the threshold clearly. -/
lemma abs_cos_cases (x : Decimal) : (cos x).toRat = 0 ∨ 103 / 10 ^ 32 ≤ |(cos x).toRat| := by
  rcases lt_or_ge |(alternatingSeries (reduceAngle x.abs) 1 1).sum.toRat| (103 / 10 ^ 32) with
    hsmall | hlarge
  · exact Or.inl (cos_eq_zero_iff.mpr (cosine_sum_small (by simp) hsmall).1)
  · right
    rwa [cos, flush_of_le (le_trans (by norm_num) hlarge)]

/-- The cosine of a very small angle does not exceed one. -/
lemma abs_cos_le_one (h : (reduceAngle x.abs).toRat ≤ 22 / 10 ^ 31) : |(cos x).toRat| ≤ 1 := by
  have hnonneg : 0 ≤ (reduceAngle x.abs).toRat :=
    Rat.cast_nonneg.mp (reduceAngle_spec (x := x.abs) (by simp)).1
  have hone : (1 : Decimal).toRat = 1 := toRat_one
  obtain ⟨t, ht, ht', hsum⟩ := exists_sum_of_small (x := reduceAngle x.abs)
    (by rw [abs_of_nonneg hnonneg]; exact h.trans (by norm_num)) (zero_le_one.trans hone.ge) hone.le
    (show 0 < 1 by norm_num)
  rw [hone] at hsum
  norm_num at ht'
  have hle : |(alternatingSeries (reduceAngle x.abs) 1 1).sum.toRat| ≤ 1 := by
    rw [hsum, abs_le]
    constructor <;> linarith
  rw [cos]
  rcases lt_or_ge |(alternatingSeries (reduceAngle x.abs) 1 1).sum.toRat| (1 / 10 ^ 30) with
    hsmall | hlarge
  · rw [flush_of_lt hsmall, toRat_zero, abs_zero]
    exact zero_le_one
  · rwa [flush_of_le hlarge]

lemma tan_isFlushed (x : Decimal) : Yields IsFlushed (tan x) := by
  refine quotientOr_isFlushed fun _ => ?_
  have hcos := (abs_cos_le x).1
  rcases abs_sin_cases x with hzero | hlarge | hangle
  · exact Or.inl hzero
  · right
    norm_num at hcos hlarge ⊢
    linarith
  · refine (isFlushed_sin x).imp_right fun hsin => ?_
    have hone := abs_cos_le_one hangle
    norm_num at hsin ⊢
    linarith

lemma cot_isFlushed (x : Decimal) : Yields IsFlushed (cot x) := by
  refine quotientOr_isFlushed fun _ => (abs_cos_cases x).imp_right fun hlarge => ?_
  have hsin := (abs_sin_le x).1
  norm_num at hsin hlarge ⊢
  linarith

lemma sec_isFlushed (x : Decimal) : Yields IsFlushed (sec x) := by
  refine quotientOr_isFlushed fun _ => Or.inr ?_
  have hcos := (abs_cos_le x).1
  rw [toRat_one, abs_one]
  norm_num at hcos ⊢
  linarith

lemma csc_isFlushed (x : Decimal) : Yields IsFlushed (csc x) := by
  refine quotientOr_isFlushed fun _ => Or.inr ?_
  have hsin := (abs_sin_le x).1
  rw [toRat_one, abs_one]
  norm_num at hsin ⊢
  linarith

/-! ### Inverse circular functions -/

/-- Between two steps of the series of the inverse tangent at an argument of size up to three tenths:
the factors fall to a fifth in each step, and the sum keeps within nine eighths of the argument. -/
structure IsArctanState (x : Decimal) (k : ℕ) (state : Series.State) : Prop where
  factor_le : |state.factor.toRat| ≤ |x.toRat| / 5 ^ k
  sum_le : |state.sum.toRat| ≤ |x.toRat| * (9 / 8 - 1 / (8 * 5 ^ k))

/-- Rounding enlarges a number by little. -/
lemma abs_roundSignificant_le (q : ℚ) :
    |roundSignificant workingDigits q| ≤ 100001 / 100000 * |q| := by
  have hround := abs_roundSignificant_sub_le workingDigits_pos q
  have hle : |q| / (2 * 10 ^ (workingDigits - 1)) ≤ 1 / 100000 * |q| := by
    rw [div_eq_mul_one_div, mul_comm]
    exact mul_le_mul_of_nonneg_right (by norm_num [workingDigits]) (abs_nonneg q)
  linarith [abs_sub_abs_le_abs_sub (roundSignificant workingDigits q) q]

/-- The state before the first step. -/
lemma isArctanState_start (x : Decimal) : IsArctanState x 0 (arctanSeries x).start := by
  constructor <;> norm_num [Series.start, arctanSeries]

/-- The next factor, which the square of the argument gives. -/
lemma IsArctanState.next_factor_le (hx : |x.toRat| ≤ 3 / 10) {k : ℕ} {state : Series.State}
    (h : IsArctanState x k state) :
    |(state.factor * -(x * x)).toRat| ≤ |x.toRat| / 5 ^ (k + 1) := by
  have hsquare : |(x * x).toRat| ≤ 1 / 10 := by
    have hexact : |x.toRat * x.toRat| ≤ 9 / 100 := by
      rw [abs_mul]
      nlinarith [abs_nonneg x.toRat]
    rw [toRat_mul]
    linarith [abs_roundSignificant_le (x.toRat * x.toRat)]
  have hproduct : |state.factor.toRat * (-(x * x)).toRat| ≤ |x.toRat| / 5 ^ k * (1 / 10) := by
    rw [abs_mul, toRat_neg, abs_neg]
    exact mul_le_mul h.factor_le hsquare (abs_nonneg _) (by positivity)
  have hnonneg : 0 ≤ |x.toRat| / 5 ^ k := by positivity
  rw [toRat_mul]
  calc _ ≤ 100001 / 100000 * (|x.toRat| / 5 ^ k * (1 / 10)) :=
        (abs_roundSignificant_le _).trans (mul_le_mul_of_nonneg_left hproduct (by norm_num))
    _ ≤ |x.toRat| / 5 ^ k * (1 / 5) := by linarith
    _ = |x.toRat| / 5 ^ (k + 1) := by rw [pow_succ]; ring

/-- The next term is at most half of that factor. -/
lemma IsArctanState.next_term_le (hx : |x.toRat| ≤ 3 / 10) {k : ℕ} {state : Series.State}
    (h : IsArctanState x k state) :
    |((state.factor * -(x * x)).dividedBy (2 * k + 3)).toRat| ≤ |x.toRat| / 5 ^ (k + 1) * (1 / 2) := by
  set factor := state.factor * -(x * x) with hfactor
  have hquotient : |factor.toRat / (2 * k + 3 : ℕ)| ≤ |x.toRat| / 5 ^ (k + 1) * (1 / 3) := by
    have hdivisor : (1 : ℚ) / (2 * k + 3 : ℕ) ≤ 1 / 3 :=
      one_div_le_one_div_of_le (by norm_num) (by push_cast; linarith [k.cast_nonneg (α := ℚ)])
    rw [abs_div, Nat.abs_cast, div_eq_mul_one_div]
    exact mul_le_mul (h.next_factor_le hx) hdivisor (by positivity) (by positivity)
  have hnonneg : 0 ≤ |x.toRat| / 5 ^ (k + 1) := by positivity
  rw [toRat_dividedBy]
  linarith [abs_roundSignificant_le (factor.toRat / (2 * k + 3 : ℕ))]

/-- A step of the series of the inverse tangent keeps that. -/
lemma IsArctanState.step (hx : |x.toRat| ≤ 3 / 10) {k : ℕ} {state : Series.State}
    (h : IsArctanState x k state) : IsArctanState x (k + 1) ((arctanSeries x).step k state) := by
  have hsum : ((arctanSeries x).step k state).sum.toRat =
      state.sum.toRat + ((state.factor * -(x * x)).dividedBy (2 * k + 3)).toRat := toRat_add _ _
  refine ⟨h.next_factor_le hx, ?_⟩
  rw [hsum]
  calc _ ≤ |x.toRat| * (9 / 8 - 1 / (8 * 5 ^ k)) + |x.toRat| / 5 ^ (k + 1) * (1 / 2) :=
        (abs_add_le _ _).trans (add_le_add h.sum_le (h.next_term_le hx))
    _ = |x.toRat| * (9 / 8 - 1 / (8 * 5 ^ (k + 1))) := by rw [pow_succ]; field_simp; ring

/-- **The series of the inverse tangent** does not exceed its argument by more than an eighth. -/
theorem abs_arctanSeries_sum_le (hx : |x.toRat| ≤ 3 / 10) :
    |(arctanSeries x).sum.toRat| ≤ 9 / 8 * |x.toRat| := by
  obtain ⟨k, -, state, hstate, hsum⟩ :=
    Series.exists_sum (isArctanState_start x) fun k state h => IsArctanState.step hx h
  rw [hsum]
  refine hstate.sum_le.trans ?_
  rw [mul_comm]
  refine mul_le_mul_of_nonneg_right ?_ (abs_nonneg _)
  linarith [show (0 : ℚ) ≤ 1 / (8 * 5 ^ k) by positivity]

/-- The constants of the inverse tangent. -/
lemma arctan_constants : arctanBound.toRat = 267949192431122706 / 10 ^ 18 ∧
    173205 / 10 ^ 5 ≤ rootThree.toRat ∧ rootThree.toRat ≤ 173206 / 10 ^ 5 ∧
      52 / 100 ≤ twelfthTurn.toRat ∧ twelfthTurn.toRat ≤ 53 / 100 := by
  have htwelfth : ⟨52, 2⟩ ≤ twelfthTurn ∧ twelfthTurn ≤ ⟨53, 2⟩ := by decide
  rw [le_iff, le_iff] at htwelfth
  norm_num [toRat, zpow_neg, arctanBound, rootThree] at htwelfth ⊢
  exact htwelfth

/-- A quarter of a turn is more than one and a half radians. -/
lemma le_quarterTurn : 157 / 100 ≤ quarterTurn.toRat := by
  have hquarter : ⟨157, 2⟩ ≤ quarterTurn := by decide
  rw [le_iff] at hquarter
  norm_num [toRat, zpow_neg] at hquarter ⊢
  exact hquarter

/-- An angle as the inverse tangent gives it: a flushed angle of less than a radian, or a quarter of a
turn away from one. -/
def IsArc (v : Decimal) : Prop :=
  ∃ b : Decimal, IsFlushed b ∧ |b.toRat| ≤ 9 / 10 ∧
    (v.toRat = b.toRat ∨ v.toRat = quarterTurn.toRat - b.toRat ∨ v.toRat = b.toRat - quarterTurn.toRat)

lemma isArc_zero : IsArc 0 := ⟨0, isFlushed_zero, by norm_num, Or.inl rfl⟩

lemma IsArc.neg (h : IsArc v) : IsArc (-v) := by
  obtain ⟨b, hflushed, hsmall, hcases⟩ := h
  rcases hcases with h | h | h
  · exact ⟨-b, hflushed.neg, by rwa [toRat_neg, abs_neg], Or.inl (by rw [toRat_neg, toRat_neg, h])⟩
  · exact ⟨b, hflushed, hsmall, Or.inr (Or.inr (by rw [toRat_neg, h]; ring))⟩
  · exact ⟨b, hflushed, hsmall, Or.inr (Or.inl (by rw [toRat_neg, h]; ring))⟩

/-- Such an angle is flushed. -/
lemma IsArc.isFlushed (h : IsArc v) : IsFlushed v := by
  obtain ⟨b, hflushed, hsmall, hcases⟩ := h
  have hquarter := le_quarterTurn
  rw [abs_le] at hsmall
  rcases hcases with h | h | h
  · rwa [IsFlushed, h]
  · right
    rw [h, abs_of_pos (by linarith)]
    norm_num
    linarith
  · right
    rw [h, abs_of_neg (by linarith)]
    norm_num
    linarith

/-- Its complement is flushed too. -/
lemma IsArc.isFlushed_complement (h : IsArc v) : IsFlushed (quarterTurn - v) := by
  obtain ⟨b, hflushed, hsmall, hcases⟩ := h
  have hquarter := le_quarterTurn
  have hvalue := toRat_sub quarterTurn v
  rw [abs_le] at hsmall
  rcases hcases with h | h | h
  · right
    rw [hvalue, h, abs_of_pos (by linarith)]
    norm_num
    linarith
  · rwa [IsFlushed, hvalue, h, sub_sub_cancel]
  · right
    rw [hvalue, h, abs_of_pos (by linarith)]
    norm_num
    linarith

/-- What the series gives is turned back to such an angle. -/
lemma turnBack_isArc {angle : Decimal} {isRotated : Bool} (hflushed : IsFlushed angle)
    (hsmall : |angle.toRat| ≤ 31 / 100) (isNegative isReciprocal : Bool) :
    IsArc (turnBack isNegative isReciprocal isRotated angle) := by
  obtain ⟨-, -, -, hlow, hhigh⟩ := arctan_constants
  have hrotated : IsFlushed (if isRotated then twelfthTurn + angle else angle) ∧
      |(if isRotated then twelfthTurn + angle else angle).toRat| ≤ 9 / 10 := by
    cases isRotated with
    | false => exact ⟨hflushed, hsmall.trans (by norm_num)⟩
    | true =>
      rw [abs_le] at hsmall
      have hvalue := toRat_add twelfthTurn angle
      have hsize : |(twelfthTurn + angle).toRat| = twelfthTurn.toRat + angle.toRat := by
        rw [hvalue, abs_of_pos (by linarith)]
      refine ⟨Or.inr ?_, ?_⟩ <;> simp only [if_true, hsize]
      · norm_num
        linarith
      · linarith
  rw [turnBack]
  generalize (if isRotated then twelfthTurn + angle else angle) = b at hrotated
  have hreciprocal : IsArc (if isReciprocal then quarterTurn - b else b) := by
    cases isReciprocal with
    | false => exact ⟨b, hrotated.1, hrotated.2, Or.inl rfl⟩
    | true => exact ⟨b, hrotated.1, hrotated.2, Or.inr (Or.inl (toRat_sub _ _))⟩
  cases isNegative with
  | false => exact hreciprocal
  | true => exact hreciprocal.neg

/-- An angle that has been turned back by a twelfth is given by a small argument. -/
lemma abs_rotated_le {size : Decimal} (hlow : arctanBound.toRat < size.toRat) (hone : size.toRat ≤ 1) :
    |((rootThree * size - 1) / (rootThree + size)).toRat| ≤ 268 / 1000 := by
  obtain ⟨hbound, hroot, hroot', -⟩ := arctan_constants
  rw [hbound] at hlow
  norm_num at hlow
  have hpos : 0 < size.toRat := by linarith
  have hdivisor : 0 < rootThree.toRat + size.toRat := by linarith
  -- the product with its rounding
  have hproduct := abs_roundSignificant_sub_le workingDigits_pos (rootThree.toRat * size.toRat)
  have hproduct_le := mul_le_mul_of_nonneg_right hroot hpos.le
  have hle_product := mul_le_mul_of_nonneg_right hroot' hpos.le
  rw [abs_of_nonneg (mul_nonneg (by linarith) hpos.le), abs_le] at hproduct
  norm_num [workingDigits] at hproduct
  have hquotient : |((rootThree * size - 1).toRat / (rootThree + size).toRat)| ≤ 26798 / 10 ^ 5 := by
    rw [abs_div, toRat_add, abs_of_pos hdivisor, div_le_iff₀ hdivisor, toRat_sub, toRat_one, toRat_mul,
      workingDigits, abs_le]
    constructor <;> linarith
  rw [toRat_div]
  linarith [abs_roundSignificant_le ((rootThree * size - 1).toRat / (rootThree + size).toRat)]

/-- The size of an argument, or the reciprocal of one above one. -/
def arctanSize (x : Decimal) : Decimal := if 1 < x.abs then 1 / x.abs else x.abs

/-- The number at which the series of the inverse tangent is summed: a size up to one, which is turned
back by a twelfth of a turn if it is above the bound. -/
def arctanArgument (x : Decimal) : Decimal :=
  if arctanBound < arctanSize x then (rootThree * arctanSize x - 1) / (rootThree + arctanSize x)
  else arctanSize x

/-- Such a size is at most one. -/
lemma arctanSize_bounds (x : Decimal) : 0 ≤ (arctanSize x).toRat ∧ (arctanSize x).toRat ≤ 1 := by
  rw [arctanSize]
  split
  · next hlarge =>
    rw [lt_iff, toRat_one] at hlarge
    have hpos : 0 < x.abs.toRat := one_pos.trans hlarge
    refine ⟨reciprocal_nonneg hpos, ?_⟩
    have := abs_reciprocal_le (x := x.abs) (n := 0) (by
      rw [abs_of_pos hpos, pow_zero, div_one]
      exact hlarge.le)
    rw [pow_zero] at this
    exact (le_abs_self _).trans this
  · next hsmall =>
    rw [lt_iff, not_lt, toRat_one] at hsmall
    exact ⟨toRat_abs_nonneg x, hsmall⟩

/-- **The series of the inverse tangent** is summed at a small number. -/
theorem abs_arctanArgument_le (x : Decimal) : |(arctanArgument x).toRat| ≤ 268 / 1000 := by
  obtain ⟨hnonneg, hone⟩ := arctanSize_bounds x
  rw [arctanArgument]
  split
  · next hlarge => exact abs_rotated_le (lt_iff.mp hlarge) hone
  · next hsmall =>
    rw [lt_iff, not_lt, arctan_constants.1] at hsmall
    rw [abs_of_nonneg hnonneg]
    exact hsmall.trans (by norm_num)

/-- **The inverse tangent** of a number other than zero, by its series. -/
theorem arctan_eq_turnBack (hx : x.toRat ≠ 0) :
    arctan x = .ok (turnBack x.isNegative (decide (1 < x.abs)) (decide (arctanBound < arctanSize x))
      (flush (arctanSeries (arctanArgument x)).sum)) := by
  have hsize : (if decide (1 < x.abs) then quotientOrAbort 1 x.abs else .ok x.abs) =
      .ok (arctanSize x) := by
    rw [arctanSize]
    by_cases hlarge : 1 < x.abs
    · have hne : x.abs.toRat ≠ 0 := by
        rw [toRat_abs]
        exact abs_ne_zero.mpr hx
      simp only [hlarge, decide_true, if_true, quotientOrAbort_eq 1 hne]
    · simp only [hlarge, decide_false, Bool.false_eq_true, if_false]
  have hzero := (isZero_eq_false_iff x).mpr hx
  rw [arctan_eq, hzero, hsize]
  change arctanOfSize _ _ (arctanSize x) = _
  rw [arctanOfSize, arctanArgument]
  by_cases hlarge : arctanBound < arctanSize x
  · have hdivisor : (rootThree + arctanSize x).toRat ≠ 0 := by
      rw [toRat_add]
      linarith [arctan_constants.2.1, (arctanSize_bounds x).1]
    simp only [hlarge, decide_true, if_true, quotientOrAbort_eq _ hdivisor]
    rfl
  · simp only [hlarge, decide_false, Bool.false_eq_true, if_false]
    rfl

/-- **The inverse tangent** gives such an angle. -/
theorem arctan_isArc (x : Decimal) : Yields IsArc (arctan x) := by
  rcases eq_or_ne x.toRat 0 with hzero | hne
  · rw [arctan, if_pos ((isZero_iff x).mpr hzero)]
    exact .ok isArc_zero
  · rw [arctan_eq_turnBack hne]
    refine .ok (turnBack_isArc (isFlushed_flush _) ?_ _ _)
    have hargument := abs_arctanArgument_le x
    have hsum := abs_arctanSeries_sum_le (hargument.trans (by norm_num))
    rcases lt_or_ge |(arctanSeries (arctanArgument x)).sum.toRat| (1 / 10 ^ 30) with hsmall | hlarge
    · rw [flush_of_lt hsmall]
      norm_num
    · rw [flush_of_le hlarge]
      linarith

/-- **The inverse sine** gives such an angle. -/
theorem arcsin_isArc (x : Decimal) : Yields IsArc (arcsin x) := by
  refine .ite (fun _ => .error _) fun _ => .ite (fun _ => .ok isArc_zero) fun _ =>
    .ite (fun _ => .ok ?_) fun _ => .bind fun _ _ => .bind fun _ _ => arctan_isArc _
  have hquarter : IsArc quarterTurn := by
    refine ⟨0, isFlushed_zero, by norm_num, Or.inr (Or.inl ?_)⟩
    rw [toRat_zero, sub_zero]
  split
  · exact hquarter.neg
  · exact hquarter

lemma arccos_isFlushed (x : Decimal) : Yields IsFlushed (arccos x) :=
  .ite (fun _ => .error _) fun _ => .bind fun angle h =>
    .ok (arcsin_isArc x angle h).isFlushed_complement

lemma arcsec_isFlushed (x : Decimal) : Yields IsFlushed (arcsec x) :=
  .ite (fun _ => .error _) fun _ => .bind fun _ _ => arccos_isFlushed _

lemma arccsc_isFlushed (x : Decimal) : Yields IsFlushed (arccsc x) :=
  .ite (fun _ => .error _) fun _ => .bind fun _ _ v h => (arcsin_isArc _ v h).isFlushed

lemma arccot_isFlushed (x : Decimal) : Yields IsFlushed (arccot x) := by
  refine .ite (fun _ => .ok (Or.inr ?_)) fun _ => .bind fun _ _ v h => (arctan_isArc _ v h).isFlushed
  have hquarter := le_quarterTurn
  rw [abs_of_pos (by linarith)]
  norm_num
  linarith

end DecimalCalculator.Elementary
