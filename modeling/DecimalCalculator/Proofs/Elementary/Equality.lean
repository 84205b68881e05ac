import DecimalCalculator.Expression.Operation
import DecimalCalculator.Proofs.Decimal.Equality

/-!
The elementary functions of equal numbers.

* `SameResult`: equal numbers, or the same failure. It is closed under going on with the result.
* `Series.Congr`: series with equal factors and terms. `Series.Congr.step`: **one step** keeps factors
  and sums equal, and `Series.Congr.sum_congr`: so do all steps, since both series end with the same
  term.
* `Reduction.of_congr`: **the reduction** of the logarithm takes the same steps.
* `exp_congr`, `ln_congr`, `sin_congr`, `arctan_congr` and so on: each function.
* `Function.apply_congr`: **every function of equal numbers has the same result**, in each angle mode.
-/

namespace DecimalCalculator.Elementary

open Decimal

variable {x x' y y' : Decimal}

/-! ### Results -/

/-- Two results that are equal numbers, or the same failure. -/
inductive SameResult : Except Failure Decimal → Except Failure Decimal → Prop
  | ok {x y : Decimal} : x ≈ y → SameResult (.ok x) (.ok y)
  | error (f : Failure) : SameResult (.error f) (.error f)

section Results

variable {r r' : Except Failure Decimal} {p q : Prop} [Decidable p] [Decidable q]

/-- Going on from the same result with steps that have the same results. -/
lemma SameResult.bind (h : SameResult r r') {next next' : Decimal → Except Failure Decimal}
    (hnext : ∀ {a b : Decimal}, a ≈ b → SameResult (next a) (next' b)) :
    SameResult (r >>= next) (r' >>= next') := by
  cases h with
  | ok hvalue => exact hnext hvalue
  | error f => exact .error f

lemma SameResult.map (h : SameResult r r') {f : Decimal → Decimal}
    (hf : ∀ {a b : Decimal}, a ≈ b → f a ≈ f b) : SameResult (r.map f) (r'.map f) := by
  cases h with
  | ok hvalue => exact .ok (hf hvalue)
  | error failure => exact .error failure

/-- Cases that are decided alike. -/
lemma SameResult.ite {a a' b b' : Except Failure Decimal} (hcond : p ↔ q) (hthen : SameResult a a')
    (helse : SameResult b b') : SameResult (if p then a else b) (if q then a' else b') := by
  by_cases hp : p
  · rwa [if_pos hp, if_pos (hcond.mp hp)]
  · rwa [if_neg hp, if_neg fun hq => hp (hcond.mpr hq)]

/-- Numbers in cases that are decided alike. -/
lemma equiv_ite (hcond : p ↔ q) (hthen : x ≈ x') (helse : y ≈ y') :
    (if p then x else y) ≈ if q then x' else y' := by
  by_cases hp : p
  · rwa [if_pos hp, if_pos (hcond.mp hp)]
  · rwa [if_neg hp, if_neg fun hq => hp (hcond.mpr hq)]

lemma isZero_iff_congr (h : x ≈ x') : x.isZero = true ↔ x'.isZero = true := by rw [isZero_congr h]

lemma isNegative_iff_congr (h : x ≈ x') : x.isNegative = true ↔ x'.isNegative = true := by
  rw [isNegative_congr h]

lemma isPositive_iff_congr (h : x ≈ x') : x.isPositive = true ↔ x'.isPositive = true := by
  rw [isPositive_congr h]

/-- A number whose sign follows that of an argument. -/
lemma neg_ite_congr (hx : x ≈ x') (hy : y ≈ y') :
    (if x.isNegative then -y else y) ≈ if x'.isNegative then -y' else y' :=
  equiv_ite (isNegative_iff_congr hx) (neg_congr hy) hy

lemma quotientOr_congr (undefined : Failure) (hx : x ≈ x') (hy : y ≈ y') :
    SameResult (quotientOr undefined x y) (quotientOr undefined x' y') := by
  have hquotient := quotient?_congr hx hy
  rw [quotientOr, quotientOr]
  generalize x.quotient? y = q at hquotient
  generalize x'.quotient? y' = q' at hquotient
  cases hquotient with
  | some hvalue => exact .ok hvalue
  | none => exact .error undefined

lemma quotientOrAbort_congr (hx : x ≈ x') (hy : y ≈ y') :
    SameResult (quotientOrAbort x y) (quotientOrAbort x' y') :=
  quotientOr_congr .aborted hx hy

lemma quotientOrOverflow_congr (hx : x ≈ x') (hy : y ≈ y') :
    SameResult (quotientOrOverflow x y) (quotientOrOverflow x' y') :=
  quotientOr_congr .overflow hx hy

lemma flush_congr (h : x ≈ x') : flush x ≈ flush x' :=
  equiv_ite (lt_congr (abs_congr h) (equiv_refl threshold)) (equiv_refl 0) h

end Results

/-! ### Series -/

namespace Series

variable {s s' : Series}

/-- Two series whose factors and terms are equal numbers. -/
structure Congr (s s' : Series) : Prop where
  first : s.first ≈ s'.first
  advance : ∀ k {f f' : Decimal}, f ≈ f' → s.advance k f ≈ s'.advance k f'
  term : ∀ k {f f' : Decimal}, f ≈ f' → s.term k f ≈ s'.term k f'

/-- Two states with equal factors and sums, of which either both or none has ended. -/
structure State.Congr (a b : State) : Prop where
  factor : a.factor ≈ b.factor
  sum : a.sum ≈ b.sum
  done : a.done = b.done

/-- **A step** keeps the states equal. -/
theorem Congr.step (h : s.Congr s') (k : ℕ) {a b : State} (hstate : a.Congr b) :
    (s.step k a).Congr (s'.step k b) where
  factor := h.advance k hstate.factor
  sum := add_congr hstate.sum (h.term k (h.advance k hstate.factor))
  done := decide_eq_decide.mpr <|
    lt_congr (abs_congr (h.term k (h.advance k hstate.factor))) (equiv_refl threshold)

/-- **A run** of steps keeps the states equal. -/
theorem Congr.run (h : s.Congr s') (bound k : ℕ) {a b : State} (hstate : a.Congr b) :
    (s.run bound k a).Congr (s'.run bound k b) := by
  induction bound generalizing k a b with
  | zero => exact hstate
  | succ bound ih =>
    rw [Series.run, Series.run, hstate.done]
    split
    · exact hstate
    · exact ih (k + 1) (h.step k hstate)

/-- **The sums** of equal series are equal. -/
theorem Congr.sum_congr (h : s.Congr s') : s.sum ≈ s'.sum :=
  (h.run stepBound 0 (a := s.start) (b := s'.start) ⟨h.first, h.first, rfl⟩).sum

end Series

lemma expSeries_congr (h : x ≈ x') : (expSeries x).Congr (expSeries x') where
  first := equiv_refl 1
  advance k _ _ hfactor := mul_congr hfactor (dividedBy_congr h (k + 1))
  term _ _ _ hfactor := hfactor

lemma lnSeries_congr (h : x ≈ x') : (lnSeries x).Congr (lnSeries x') where
  first := h
  advance _ _ _ hfactor := mul_congr hfactor (neg_congr h)
  term k _ _ hfactor := dividedBy_congr hfactor (k + 2)

lemma alternatingSeries_congr (hx : x ≈ x') (hfirst : y ≈ y') (start : ℕ) :
    (alternatingSeries x y start).Congr (alternatingSeries x' y' start) where
  first := hfirst
  advance _ _ _ hfactor := mul_congr hfactor (neg_congr (dividedBy_congr (mul_congr hx hx) _))
  term _ _ _ hfactor := hfactor

lemma arctanSeries_congr (h : x ≈ x') : (arctanSeries x).Congr (arctanSeries x') where
  first := h
  advance _ _ _ hfactor := mul_congr hfactor (neg_congr (mul_congr h h))
  term k _ _ hfactor := dividedBy_congr hfactor (2 * k + 3)

/-! ### Exponentials and logarithms -/

lemma wholeExponent?_congr (h : x ≈ x') : wholeExponent? x = wholeExponent? x' := by
  rw [wholeExponent?, wholeExponent?, toInt64?_congr h, isInteger_congr h]

theorem exp_congr (h : x ≈ x') : SameResult (exp x) (exp x') := by
  have hsize := abs_congr h
  rw [exp, exp, wholeExponent?_congr hsize]
  -- the whole exponent is the same, and so is the power of `e`
  generalize (do
    let whole ← wholeExponent? x'.abs
    let power ← e.power? whole
    some (whole, power)) = parts
  match parts with
  | none => exact .ite (isNegative_iff_congr h) (.ok (equiv_refl 0)) (.error _)
  | some (whole, power) =>
    have hsum := (expSeries_congr (sub_congr hsize (equiv_refl (ofInt whole)))).sum_congr
    have hgrown := mul_congr (equiv_refl power) hsum
    refine .ite (isNegative_iff_congr h) ?_ (.ok (flush_congr hgrown))
    exact (quotientOrAbort_congr (equiv_refl 1) hgrown).bind fun hvalue => .ok (flush_congr hvalue)

namespace Reduction

/-- Two reductions that have taken out the same power of `e`, and have equal numbers left. -/
structure Congr (r r' : Reduction) : Prop where
  reduced : r.reduced ≈ r'.reduced
  count : r.count = r'.count

variable {r r' : Reduction}

lemma divide_congr (bound : ℕ) (h : r.Congr r') : (divide bound r).Congr (divide bound r') := by
  induction bound generalizing r r' with
  | zero => exact h
  | succ bound ih =>
    rw [divide, divide]
    simp only [lt_congr (equiv_refl lnUpper) h.reduced]
    split
    · exact ih ⟨div_congr h.reduced (equiv_refl e), by rw [h.count]⟩
    · exact h

lemma multiply_congr (bound : ℕ) (h : r.Congr r') :
    (multiply bound r).Congr (multiply bound r') := by
  induction bound generalizing r r' with
  | zero => exact h
  | succ bound ih =>
    rw [multiply, multiply]
    simp only [lt_congr h.reduced (equiv_refl lnLower)]
    split
    · exact ih ⟨mul_congr h.reduced (equiv_refl e), by rw [h.count]⟩
    · exact h

/-- **The reductions** of equal numbers take the same steps. -/
theorem of_congr (h : x ≈ x') (hne : x.toRat ≠ 0) : (of x).Congr (of x') := by
  have hbound : stepBound x = stepBound x' := by rw [stepBound, stepBound, magnitude_congr h hne]
  rw [of, of, hbound]
  exact multiply_congr _ (divide_congr _ ⟨h, rfl⟩)

end Reduction

theorem ln_congr (h : x ≈ x') : SameResult (ln x) (ln x') := by
  rw [ln, ln, isPositive_congr h]
  cases hpositive : x'.isPositive with
  | false => exact .error .lnUndefined
  | true =>
    have hne : x.toRat ≠ 0 := by
      rw [equiv_iff.mp h]
      exact ((isPositive_iff x').mp hpositive).ne'
    obtain ⟨hreduced, hcount⟩ := Reduction.of_congr h hne
    refine .ite Iff.rfl (.error .lnUndefined) ?_
    refine .ite (equiv_congr h (equiv_refl 1)) (.ok (equiv_refl 0)) (.ok (flush_congr ?_))
    rw [hcount]
    exact add_congr (lnSeries_congr (sub_congr hreduced (equiv_refl 1))).sum_congr (equiv_refl _)

/-! ### Powers and roots -/

/-- The exponential of a multiple of the logarithm. -/
lemma exp_mul_ln_congr (hx : x ≈ x') (hy : y ≈ y') :
    SameResult (ln x >>= fun l => exp (y * l)) (ln x' >>= fun l => exp (y' * l)) :=
  (ln_congr hx).bind fun hl => exp_congr (mul_congr hy hl)

theorem pow_congr (hx : x ≈ x') (hy : y ≈ y') : SameResult (pow x y) (pow x' y') := by
  have hrest := remainder?_congr (round_congr integralDigits_pos hy) (equiv_refl (ofInt 2))
  rw [pow, pow, hasFraction_congr hy]
  refine .ite (isZero_iff_congr hy) (.ok (equiv_refl 1)) ?_
  refine .ite (isPositive_iff_congr hx) (exp_mul_ln_congr hx hy) ?_
  refine .ite (isZero_iff_congr hx) ?_ ?_
  · exact .ite (isPositive_iff_congr hy) (.ok (equiv_refl 0)) (.error _)
  · refine .ite Iff.rfl (.error _) ((ln_congr (abs_congr hx)).bind fun hl => ?_)
    refine (exp_congr (mul_congr hy hl)).bind fun hsize => ?_
    -- the exponents are odd or even alike
    generalize (y.round integralDigits).remainder? (ofInt 2) = q at hrest
    generalize (y'.round integralDigits).remainder? (ofInt 2) = q' at hrest
    cases hrest with
    | some hvalue =>
      simp only [isZero_congr hvalue]
      exact .ok (equiv_ite Iff.rfl (neg_congr hsize) hsize)
    | none => exact .ok hsize

theorem sqrt_congr (h : x ≈ x') : SameResult (sqrt x) (sqrt x') := by
  refine .ite (isNegative_iff_congr h) (.error _) (.ite (isZero_iff_congr h) (.ok (equiv_refl 0)) ?_)
  exact exp_mul_ln_congr h (equiv_refl half)

/-! ### Circular functions -/

lemma reduceAngle_congr (h : x ≈ x') : reduceAngle x ≈ reduceAngle x' :=
  mul_congr (fract_congr (div_congr h (equiv_refl fullTurn))) (equiv_refl fullTurn)

theorem sin_congr (h : x ≈ x') : sin x ≈ sin x' := by
  have hangle := reduceAngle_congr (abs_congr h)
  exact neg_ite_congr h (flush_congr (alternatingSeries_congr hangle hangle 2).sum_congr)

theorem cos_congr (h : x ≈ x') : cos x ≈ cos x' :=
  flush_congr
    (alternatingSeries_congr (reduceAngle_congr (abs_congr h)) (equiv_refl 1) 1).sum_congr

theorem tan_congr (h : x ≈ x') : SameResult (tan x) (tan x') :=
  quotientOr_congr .tanUndefined (sin_congr h) (cos_congr h)

theorem sec_congr (h : x ≈ x') : SameResult (sec x) (sec x') :=
  quotientOr_congr .secUndefined (equiv_refl 1) (cos_congr h)

theorem csc_congr (h : x ≈ x') : SameResult (csc x) (csc x') :=
  quotientOr_congr .cscUndefined (equiv_refl 1) (sin_congr h)

theorem cot_congr (h : x ≈ x') : SameResult (cot x) (cot x') :=
  quotientOr_congr .cotUndefined (cos_congr h) (sin_congr h)

/-! ### Inverse circular functions -/

/-- What the series of the inverse tangent gives, turned back by a twelfth and by a quarter of a
turn, and to the other side. -/
def turnBack (isNegative isReciprocal isRotated : Bool) (angle : Decimal) : Decimal :=
  let angle := if isRotated then twelfthTurn + angle else angle
  let angle := if isReciprocal then quarterTurn - angle else angle
  if isNegative then -angle else angle

lemma turnBack_congr (isNegative isReciprocal isRotated : Bool) (h : x ≈ x') :
    turnBack isNegative isReciprocal isRotated x ≈ turnBack isNegative isReciprocal isRotated x' := by
  have hrotated := equiv_ite (p := isRotated = true) Iff.rfl (add_congr (equiv_refl twelfthTurn) h) h
  have hreciprocal := equiv_ite (p := isReciprocal = true) Iff.rfl
    (sub_congr (equiv_refl quarterTurn) hrotated) hrotated
  exact equiv_ite Iff.rfl (neg_congr hreciprocal) hreciprocal

/-- The inverse tangent of a size up to one, from which the sign and a reciprocal have been taken. -/
def arctanOfSize (isNegative isReciprocal : Bool) (size : Decimal) : Except Failure Decimal := do
  let isRotated := decide (arctanBound < size)
  let reduced ← if isRotated then quotientOrAbort (rootThree * size - 1) (rootThree + size)
    else .ok size
  .ok (turnBack isNegative isReciprocal isRotated (flush (arctanSeries reduced).sum))

/-- The inverse tangent, in its three steps. -/
lemma arctan_eq (x : Decimal) : arctan x = if x.isZero then .ok 0 else
    (if decide (1 < x.abs) then quotientOrAbort 1 x.abs else .ok x.abs) >>=
      arctanOfSize x.isNegative (decide (1 < x.abs)) := by
  have hrotate : ∀ isReciprocal size, arctanOfSize x.isNegative isReciprocal size =
      if decide (arctanBound < size) then
        quotientOrAbort (rootThree * size - 1) (rootThree + size) >>= fun reduced =>
          .ok (turnBack x.isNegative isReciprocal (decide (arctanBound < size))
            (flush (arctanSeries reduced).sum))
      else .ok (turnBack x.isNegative isReciprocal (decide (arctanBound < size))
        (flush (arctanSeries size).sum)) := by
    intro isReciprocal size
    simp only [arctanOfSize]
    split <;> rfl
  dsimp only [arctan]
  split
  · rfl
  · generalize decide (1 < x.abs) = isReciprocal
    cases isReciprocal <;>
      simp only [Bool.false_eq_true, if_true, if_false, bind, Except.bind, hrotate, turnBack]

theorem arctan_congr (h : x ≈ x') : SameResult (arctan x) (arctan x') := by
  have hsize := abs_congr h
  have hreciprocal : decide (1 < x.abs) = decide (1 < x'.abs) :=
    decide_eq_decide.mpr (lt_congr (equiv_refl 1) hsize)
  rw [arctan_eq, arctan_eq, isNegative_congr h, hreciprocal]
  refine .ite (isZero_iff_congr h) (.ok (equiv_refl 0)) (SameResult.bind ?_ fun {a b} hab => ?_)
  · exact .ite Iff.rfl (quotientOrAbort_congr (equiv_refl 1) hsize) (.ok hsize)
  · have hrotated : decide (arctanBound < a) = decide (arctanBound < b) :=
      decide_eq_decide.mpr (lt_congr (equiv_refl arctanBound) hab)
    rw [arctanOfSize, arctanOfSize, hrotated]
    have hturn : ∀ {c d : Decimal}, c ≈ d → ∀ isReciprocal isRotated,
        turnBack x'.isNegative isReciprocal isRotated (flush (arctanSeries c).sum) ≈
          turnBack x'.isNegative isReciprocal isRotated (flush (arctanSeries d).sum) :=
      fun hcd isReciprocal isRotated =>
        turnBack_congr _ isReciprocal isRotated (flush_congr (arctanSeries_congr hcd).sum_congr)
    refine .ite Iff.rfl ?_ (.ok (hturn hab _ _))
    exact (quotientOrAbort_congr (sub_congr (mul_congr (equiv_refl rootThree) hab) (equiv_refl 1))
      (add_congr (equiv_refl rootThree) hab)).bind fun hreduced => .ok (hturn hreduced _ _)

theorem arcsin_congr (h : x ≈ x') : SameResult (arcsin x) (arcsin x') := by
  have hone := equiv_refl 1
  have hsize := abs_congr h
  refine .ite (lt_congr hone hsize) (.error _) ?_
  refine .ite (isZero_iff_congr h) (.ok (equiv_refl 0)) ?_
  refine .ite (equiv_congr hsize hone) (.ok (neg_ite_congr h (equiv_refl quarterTurn))) ?_
  refine (sqrt_congr (sub_congr hone (mul_congr h h))).bind fun hcosine => ?_
  exact (quotientOrAbort_congr h hcosine).bind arctan_congr

theorem arccos_congr (h : x ≈ x') : SameResult (arccos x) (arccos x') := by
  refine .ite (lt_congr (equiv_refl 1) (abs_congr h)) (.error _) ?_
  exact (arcsin_congr h).bind fun hangle => .ok (sub_congr (equiv_refl quarterTurn) hangle)

theorem arcsec_congr (h : x ≈ x') : SameResult (arcsec x) (arcsec x') :=
  .ite (lt_congr (abs_congr h) (equiv_refl 1)) (.error _)
    ((quotientOrAbort_congr (equiv_refl 1) h).bind arccos_congr)

theorem arccsc_congr (h : x ≈ x') : SameResult (arccsc x) (arccsc x') :=
  .ite (lt_congr (abs_congr h) (equiv_refl 1)) (.error _)
    ((quotientOrAbort_congr (equiv_refl 1) h).bind arcsin_congr)

theorem arccot_congr (h : x ≈ x') : SameResult (arccot x) (arccot x') :=
  .ite (isZero_iff_congr h) (.ok (equiv_refl quarterTurn))
    ((quotientOrAbort_congr (equiv_refl 1) h).bind arctan_congr)

lemma toDegrees_congr (h : x ≈ x') : toDegrees x ≈ toDegrees x' := div_congr h (equiv_refl degree)

theorem arccotDegrees_congr (h : x ≈ x') : SameResult (arccotDegrees x) (arccotDegrees x') :=
  .ite (isZero_iff_congr h) (.ok (equiv_refl (ofInt 90))) ((arccot_congr h).map toDegrees_congr)

/-! ### Hyperbolic functions -/

/-- Going on from the exponentials of equal numbers. -/
lemma exponentials_bind_congr (h : x ≈ x') {next : Decimal × Decimal → Except Failure Decimal}
    (hnext : ∀ {a a' b b' : Decimal}, a ≈ a' → b ≈ b' → SameResult (next (a, b)) (next (a', b'))) :
    SameResult (exponentials x >>= next) (exponentials x' >>= next) := by
  rw [exponentials, exponentials, bind_assoc, bind_assoc]
  refine (exp_congr h).bind fun hgrowing => ?_
  rw [bind_assoc, bind_assoc]
  exact (quotientOrOverflow_congr (equiv_refl 1) hgrowing).bind fun hfalling =>
    hnext hgrowing hfalling

theorem sinh_congr (h : x ≈ x') : SameResult (sinh x) (sinh x') :=
  exponentials_bind_congr h fun hgrowing hfalling =>
    .ok (dividedBy_congr (sub_congr hgrowing hfalling) 2)

theorem cosh_congr (h : x ≈ x') : SameResult (cosh x) (cosh x') :=
  exponentials_bind_congr h fun hgrowing hfalling =>
    .ok (dividedBy_congr (add_congr hgrowing hfalling) 2)

theorem tanh_congr (h : x ≈ x') : SameResult (tanh x) (tanh x') :=
  exponentials_bind_congr h fun hgrowing hfalling =>
    quotientOrOverflow_congr (sub_congr hgrowing hfalling) (add_congr hgrowing hfalling)

theorem sech_congr (h : x ≈ x') : SameResult (sech x) (sech x') :=
  (cosh_congr h).bind fun hcosh => quotientOrOverflow_congr (equiv_refl 1) hcosh

theorem csch_congr (h : x ≈ x') : SameResult (csch x) (csch x') :=
  .ite (isZero_iff_congr h) (.error _)
    ((sinh_congr h).bind fun hsinh => quotientOrOverflow_congr (equiv_refl 1) hsinh)

theorem coth_congr (h : x ≈ x') : SameResult (coth x) (coth x') :=
  .ite (isZero_iff_congr h) (.error _) <| exponentials_bind_congr h fun hgrowing hfalling =>
    quotientOrOverflow_congr (add_congr hgrowing hfalling) (sub_congr hgrowing hfalling)

/-! ### Inverse hyperbolic functions -/

theorem arcsinh_congr (h : x ≈ x') : SameResult (arcsinh x) (arcsinh x') :=
  (sqrt_congr (add_congr (mul_congr h h) (equiv_refl 1))).bind fun hroot =>
    ln_congr (add_congr h hroot)

theorem arccosh_congr (h : x ≈ x') : SameResult (arccosh x) (arccosh x') :=
  .ite (lt_congr h (equiv_refl 1)) (.error _) <|
    (sqrt_congr (sub_congr (mul_congr h h) (equiv_refl 1))).bind fun hroot =>
      ln_congr (add_congr h hroot)

theorem arctanh_congr (h : x ≈ x') : SameResult (arctanh x) (arctanh x') := by
  have hone := equiv_refl 1
  refine .ite (le_congr hone (abs_congr h)) (.error _) ?_
  refine (quotientOrAbort_congr (equiv_refl (ofInt 2)) (sub_congr hone h)).bind fun hratio => ?_
  exact (ln_congr (sub_congr hratio hone)).bind fun hlogarithm =>
    .ok (mul_congr (equiv_refl half) hlogarithm)

theorem arcsech_congr (h : x ≈ x') : SameResult (arcsech x) (arcsech x') := by
  have hless : decide (1 < x) = decide (1 < x') := decide_eq_decide.mpr (lt_congr (equiv_refl 1) h)
  rw [arcsech, arcsech, isPositive_congr h, hless]
  exact .ite Iff.rfl (.error _) ((quotientOrAbort_congr (equiv_refl 1) h).bind arccosh_congr)

theorem arccsch_congr (h : x ≈ x') : SameResult (arccsch x) (arccsch x') :=
  .ite (isZero_iff_congr h) (.error _)
    ((quotientOrAbort_congr (equiv_refl 1) h).bind arcsinh_congr)

theorem arccoth_congr (h : x ≈ x') : SameResult (arccoth x) (arccoth x') :=
  .ite (le_congr (abs_congr h) (equiv_refl 1)) (.error _)
    ((quotientOrAbort_congr (equiv_refl 1) h).bind arctanh_congr)

end DecimalCalculator.Elementary

/-! ### Functions -/

namespace DecimalCalculator.Function

open Decimal Elementary

variable {x x' : Decimal}

theorem inRadians_congr (f : Function) (h : x ≈ x') :
    SameResult (f.inRadians x) (f.inRadians x') := by
  cases f with
  | sin => exact .ok (sin_congr h)
  | cos => exact .ok (cos_congr h)
  | tan => exact tan_congr h
  | sec => exact sec_congr h
  | csc => exact csc_congr h
  | cot => exact cot_congr h
  | exp => exact exp_congr h
  | ln => exact ln_congr h
  | abs => exact .ok (abs_congr h)
  | arcsin => exact arcsin_congr h
  | arccos => exact arccos_congr h
  | arctan => exact arctan_congr h
  | arcsec => exact arcsec_congr h
  | arccsc => exact arccsc_congr h
  | arccot => exact arccot_congr h
  | sinh => exact sinh_congr h
  | cosh => exact cosh_congr h
  | tanh => exact tanh_congr h
  | sech => exact sech_congr h
  | csch => exact csch_congr h
  | coth => exact coth_congr h
  | arcsinh => exact arcsinh_congr h
  | arccosh => exact arccosh_congr h
  | arctanh => exact arctanh_congr h
  | arcsech => exact arcsech_congr h
  | arccsch => exact arccsch_congr h
  | arccoth => exact arccoth_congr h
  | sqrt => exact sqrt_congr h

/-- **Every function** of equal numbers has equal values, or fails alike. -/
theorem apply_congr (f : Function) (mode : AngleMode) (h : x ≈ x') :
    SameResult (f.apply mode x) (f.apply mode x') := by
  cases mode with
  | radians => exact f.inRadians_congr h
  | degrees =>
    refine .ite Iff.rfl (arccotDegrees_congr h) (.ite Iff.rfl ?_ (.ite Iff.rfl ?_ ?_))
    · exact f.inRadians_congr (mul_congr h (equiv_refl degree))
    · exact (f.inRadians_congr h).map toDegrees_congr
    · exact f.inRadians_congr h

end DecimalCalculator.Function
