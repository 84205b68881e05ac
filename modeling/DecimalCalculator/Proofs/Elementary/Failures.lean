import Mathlib.Tactic
import DecimalCalculator.Expression.Evaluate

/-!
Which failures values lead to.

* `Failure.isOfValue`: the failures that come from the values of operands and arguments, and not from
  the text of an expression.
* `FailsByValue`: a computation that reports only such failures. It is closed under `bind`.
* `Elementary.exp_eq_error`: the failures of **the exponential function**.
* `Function.apply_failsByValue`: **functions** are such computations, in each angle mode; so are
  products, quotients, remainders and powers.
-/

namespace DecimalCalculator

/-! ### Failures -/

/-- Whether a failure comes from the values of operands and arguments. The others come from the text
of an expression, or from a command. -/
def Failure.isOfValue : Failure → Bool
  | unknownName | missingArgument | bracketMismatch | invalidMode | integralArguments
  | sumArguments | productArguments | randArgument | randArgumentTooLarge => false
  | _ => true

/-- A computation that reports only failures that come from values. -/
def FailsByValue {α : Type} (r : Except Failure α) : Prop := ∀ f, r = .error f → f.isOfValue = true

namespace FailsByValue

variable {α β : Type}

lemma ok (a : α) : FailsByValue (.ok a) := fun f h => absurd h (by simp)

lemma error {f : Failure} (hf : f.isOfValue = true) : FailsByValue (.error f : Except Failure α) :=
  fun _ h => Except.error.inj h ▸ hf

/-- A computation reports what its steps report. -/
lemma bind {r : Except Failure α} {next : α → Except Failure β} (hr : FailsByValue r)
    (hnext : ∀ a, FailsByValue (next a)) : FailsByValue (r >>= next) := by
  cases r with
  | error f => exact error (hr f rfl)
  | ok a => exact hnext a

/-- A change of the value changes no failure. -/
lemma map {r : Except Failure α} (hr : FailsByValue r) (g : α → β) : FailsByValue (r.map g) := by
  cases r with
  | error f => exact error (hr f rfl)
  | ok a => exact ok (g a)

/-- A failure of other kinds is not reported. -/
lemma ne_error {r : Except Failure α} (hr : FailsByValue r) {f : Failure}
    (hf : f.isOfValue = false) : r ≠ .error f := by
  rintro rfl
  rw [hr f rfl] at hf
  exact absurd hf (by decide)

end FailsByValue

/-! ### Elementary functions -/

namespace Elementary

variable (x : Decimal)

/-- A quotient fails in one way. -/
lemma quotientOr_eq_error {undefined f : Failure} {x y : Decimal}
    (h : quotientOr undefined x y = .error f) : f = undefined := by
  rw [quotientOr] at h
  split at h
  · exact absurd h (by simp)
  · exact (Except.error.inj h).symm

lemma quotientOr_failsByValue {undefined : Failure} (h : undefined.isOfValue = true)
    (y : Decimal) : FailsByValue (quotientOr undefined x y) :=
  fun _ hfailure => quotientOr_eq_error hfailure ▸ h

/-- **The exponential function** fails by an overflow, or breaks off. -/
theorem exp_eq_error {x : Decimal} {f : Failure} (h : exp x = .error f) :
    f = .overflow ∨ f = .aborted := by
  unfold exp at h
  dsimp only at h
  split at h
  · split at h
    · exact absurd h (by simp)
    · exact .inl (Except.error.inj h).symm
  · split at h
    · rw [quotientOrAbort] at h
      generalize hquotient : quotientOr _ _ _ = quotient at h
      cases quotient with
      | error g => exact .inr (Except.error.inj h ▸ quotientOr_eq_error hquotient)
      | ok value => exact absurd h (by simp [bind, Except.bind])
    · exact absurd h (by simp [bind, Except.bind])

lemma exp_failsByValue : FailsByValue (exp x) := by
  intro f hfailure
  obtain rfl | rfl := exp_eq_error hfailure <;> rfl

lemma ln_failsByValue : FailsByValue (ln x) := by
  unfold ln
  split
  · exact .error rfl
  · split
    · exact .ok 0
    · exact .ok _

lemma sqrt_failsByValue : FailsByValue (sqrt x) := by
  unfold sqrt
  split
  · exact .error rfl
  · split
    · exact .ok 0
    · exact (ln_failsByValue x).bind fun logarithm => exp_failsByValue _

lemma pow_failsByValue (base exponent : Decimal) : FailsByValue (pow base exponent) := by
  unfold pow
  split
  · exact .ok 1
  · split
    · exact (ln_failsByValue base).bind fun logarithm => exp_failsByValue _
    · split
      · split
        · exact .ok 0
        · exact .error rfl
      · split
        · exact .error rfl
        · refine (ln_failsByValue base.abs).bind fun logarithm => ?_
          exact (exp_failsByValue _).bind fun size => .ok _

lemma arctan_failsByValue : FailsByValue (arctan x) := by
  unfold arctan
  split
  · exact .ok 0
  · dsimp only
    split
    · refine (quotientOr_failsByValue 1 rfl _).bind fun size => ?_
      split
      · exact (quotientOr_failsByValue _ rfl _).bind fun _ => .ok _
      · exact .ok _
    · refine FailsByValue.bind (.ok _) fun size => ?_
      split
      · exact (quotientOr_failsByValue _ rfl _).bind fun _ => .ok _
      · exact .ok _

lemma arcsin_failsByValue : FailsByValue (arcsin x) := by
  unfold arcsin
  split
  · exact .error rfl
  · split
    · exact .ok 0
    · split
      · exact .ok _
      · refine (sqrt_failsByValue _).bind fun cosine => ?_
        exact (quotientOr_failsByValue x rfl cosine).bind fun tangent => arctan_failsByValue tangent

lemma arccos_failsByValue : FailsByValue (arccos x) := by
  unfold arccos
  split
  · exact .error rfl
  · exact (arcsin_failsByValue x).bind fun angle => .ok _

lemma arcsec_failsByValue : FailsByValue (arcsec x) := by
  unfold arcsec
  split
  · exact .error rfl
  · exact (quotientOr_failsByValue 1 rfl x).bind fun cosine => arccos_failsByValue cosine

lemma arccsc_failsByValue : FailsByValue (arccsc x) := by
  unfold arccsc
  split
  · exact .error rfl
  · exact (quotientOr_failsByValue 1 rfl x).bind fun sine => arcsin_failsByValue sine

lemma arccot_failsByValue : FailsByValue (arccot x) := by
  unfold arccot
  split
  · exact .ok _
  · exact (quotientOr_failsByValue 1 rfl x).bind fun tangent => arctan_failsByValue tangent

lemma exponentials_failsByValue : FailsByValue (exponentials x) :=
  (exp_failsByValue x).bind fun growing =>
    (quotientOr_failsByValue 1 rfl growing).bind fun _ => .ok _

lemma sinh_failsByValue : FailsByValue (sinh x) :=
  (exponentials_failsByValue x).bind fun _ => .ok _

lemma cosh_failsByValue : FailsByValue (cosh x) :=
  (exponentials_failsByValue x).bind fun _ => .ok _

lemma tanh_failsByValue : FailsByValue (tanh x) :=
  (exponentials_failsByValue x).bind fun _ => quotientOr_failsByValue _ rfl _

lemma sech_failsByValue : FailsByValue (sech x) :=
  (cosh_failsByValue x).bind fun _ => quotientOr_failsByValue 1 rfl _

lemma csch_failsByValue : FailsByValue (csch x) := by
  unfold csch
  split
  · exact .error rfl
  · exact (sinh_failsByValue x).bind fun _ => quotientOr_failsByValue 1 rfl _

lemma coth_failsByValue : FailsByValue (coth x) := by
  unfold coth
  split
  · exact .error rfl
  · exact (exponentials_failsByValue x).bind fun _ => quotientOr_failsByValue _ rfl _

lemma arcsinh_failsByValue : FailsByValue (arcsinh x) :=
  (sqrt_failsByValue _).bind fun _ => ln_failsByValue _

lemma arccosh_failsByValue : FailsByValue (arccosh x) := by
  unfold arccosh
  split
  · exact .error rfl
  · exact (sqrt_failsByValue _).bind fun _ => ln_failsByValue _

lemma arctanh_failsByValue : FailsByValue (arctanh x) := by
  unfold arctanh
  split
  · exact .error rfl
  · refine (quotientOr_failsByValue _ rfl _).bind fun ratio => ?_
    exact (ln_failsByValue _).bind fun logarithm => .ok _

lemma arcsech_failsByValue : FailsByValue (arcsech x) := by
  unfold arcsech
  split
  · exact .error rfl
  · exact (quotientOr_failsByValue 1 rfl x).bind fun _ => arccosh_failsByValue _

lemma arccsch_failsByValue : FailsByValue (arccsch x) := by
  unfold arccsch
  split
  · exact .error rfl
  · exact (quotientOr_failsByValue 1 rfl x).bind fun _ => arcsinh_failsByValue _

lemma arccoth_failsByValue : FailsByValue (arccoth x) := by
  unfold arccoth
  split
  · exact .error rfl
  · exact (quotientOr_failsByValue 1 rfl x).bind fun _ => arctanh_failsByValue _

end Elementary

open Elementary in
/-- A function of an angle in radians fails only by the value of its argument. -/
lemma Function.inRadians_failsByValue (f : Function) (x : Decimal) :
    FailsByValue (f.inRadians x) := by
  cases f with
  | sin | cos | abs => exact .ok _
  | tan | sec | csc | cot => exact quotientOr_failsByValue _ rfl _
  | exp => exact exp_failsByValue x
  | ln => exact ln_failsByValue x
  | arcsin => exact arcsin_failsByValue x
  | arccos => exact arccos_failsByValue x
  | arctan => exact arctan_failsByValue x
  | arcsec => exact arcsec_failsByValue x
  | arccsc => exact arccsc_failsByValue x
  | arccot => exact arccot_failsByValue x
  | sinh => exact sinh_failsByValue x
  | cosh => exact cosh_failsByValue x
  | tanh => exact tanh_failsByValue x
  | sech => exact sech_failsByValue x
  | csch => exact csch_failsByValue x
  | coth => exact coth_failsByValue x
  | arcsinh => exact arcsinh_failsByValue x
  | arccosh => exact arccosh_failsByValue x
  | arctanh => exact arctanh_failsByValue x
  | arcsech => exact arcsech_failsByValue x
  | arccsch => exact arccsch_failsByValue x
  | arccoth => exact arccoth_failsByValue x
  | sqrt => exact sqrt_failsByValue x

/-- **Functions** fail only by the value of their argument. -/
theorem Function.apply_failsByValue (f : Function) (mode : AngleMode) (x : Decimal) :
    FailsByValue (f.apply mode x) := by
  cases mode with
  | radians => exact f.inRadians_failsByValue x
  | degrees =>
    unfold apply
    dsimp only
    split
    · unfold Elementary.arccotDegrees
      split
      · exact .ok _
      · exact (Elementary.arccot_failsByValue x).map _
    · split
      · exact f.inRadians_failsByValue _
      · split
        · exact (f.inRadians_failsByValue x).map _
        · exact f.inRadians_failsByValue x

/-! ### Operators -/

section Operators

variable (x y : Decimal)

lemma checkScale_failsByValue {f : Failure} (hf : f.isOfValue = true) (scale : Int) :
    FailsByValue (checkScale f scale) := by
  rw [checkScale]
  split
  · exact .ok ()
  · exact .error hf

lemma productOf_failsByValue : FailsByValue (productOf x y) :=
  (checkScale_failsByValue rfl _).bind fun _ => (checkScale_failsByValue rfl _).bind fun _ => .ok _

lemma quotientOf_failsByValue : FailsByValue (quotientOf x y) := by
  unfold quotientOf
  dsimp only
  split
  · exact .ok _
  · exact (checkScale_failsByValue rfl _).bind fun _ =>
      (checkScale_failsByValue rfl _).bind fun _ => (checkScale_failsByValue rfl _).bind fun _ => .ok _

lemma raise_failsByValue : FailsByValue (raise x y) := by
  unfold raise
  split
  · exact .error rfl
  · split
    · exact .error rfl
    · split
      · exact .ok _
      · exact Elementary.pow_failsByValue x y

end Operators

end DecimalCalculator
