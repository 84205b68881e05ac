import DecimalCalculator.Decimal.Integral
import DecimalCalculator.Elementary.Series
import DecimalCalculator.Failure

/-!
The exponential function, the natural logarithm, and what is built from them: powers with
any exponent and square roots.

* `exp`: an integer power of `e` times the series at what remains, which lies between zero
  and one.
* `ln`: divides or multiplies by `e` until the argument lies between `lnLower` and
  `lnUpper`, then sums the series there.
* `pow`, `sqrt`: through `exp` of a multiple of `ln`.
-/

namespace DecimalCalculator.Elementary

/-! ### Quotients -/

/-- The quotient, or the failure `undefined` if the divisor is zero. -/
def quotientOr (undefined : Failure) (x y : Decimal) : Except Failure Decimal :=
  match x.quotient? y with
  | some value => .ok value
  | none => .error undefined

/-- The quotient by a divisor that ought not to be zero: a zero breaks the program off. -/
def quotientOrAbort (x y : Decimal) : Except Failure Decimal := quotientOr .aborted x y

/-! ### The exponential function -/

/-- The exponential series: `1 + x + x ^ 2 / 2 + …`. -/
def expSeries (x : Decimal) : Series where
  first := 1
  advance k factor := factor * x.dividedBy (k + 1)
  term _ factor := factor

/-- The whole exponent that is taken out of a nonnegative argument: its whole part, or one
less if it is a positive integer, so that what remains is between zero and one. -/
def wholeExponent? (x : Decimal) : Option Int := do
  let whole ← x.toInt64?
  if 0x7fffffff < whole then none
  else if 0 < whole ∧ x.isInteger then some (whole - 1)
  else some whole

/-- The power of `e`. Where the whole exponent is out of range, a negative argument gives
zero and any other an overflow. -/
def exp (x : Decimal) : Except Failure Decimal :=
  let size := x.abs
  let parts := do
    let whole ← wholeExponent? size
    let power ← e.power? whole
    some (whole, power)
  match parts with
  | none => if x.isNegative then .ok 0 else .error .overflow
  | some (whole, power) => do
    let sum := (expSeries (size - Decimal.ofInt whole)).sum
    let grown := power * sum
    let value ← if x.isNegative then quotientOrAbort 1 grown else .ok grown
    .ok (flush value)

/-! ### The natural logarithm -/

/-- A number being reduced, and the power of `e` taken out of it so far. -/
structure Reduction where
  reduced : Decimal
  count : Int

namespace Reduction

/-- Divides by `e` while the number is above `lnUpper`, at most `bound` times. -/
def divide : Nat → Reduction → Reduction
  | 0, r => r
  | bound + 1, r =>
    if lnUpper < r.reduced then divide bound ⟨r.reduced / e, r.count + 1⟩ else r

/-- Multiplies by `e` while the number is below `lnLower`, at most `bound` times. -/
def multiply : Nat → Reduction → Reduction
  | 0, r => r
  | bound + 1, r =>
    if r.reduced < lnLower then multiply bound ⟨r.reduced * e, r.count - 1⟩ else r

/-- More steps than the reduction of `x` takes: three for each power of ten would do. -/
def stepBound (x : Decimal) : Nat := 4 * (x.magnitude.natAbs + 3)

/-- The reduction of a positive number. -/
def of (x : Decimal) : Reduction := multiply (stepBound x) (divide (stepBound x) ⟨x, 0⟩)

end Reduction

/-- The series of the logarithm at `1 + u`: `u - u ^ 2 / 2 + u ^ 3 / 3 - …`. -/
def lnSeries (u : Decimal) : Series where
  first := u
  advance _ factor := factor * -u
  term k factor := factor.dividedBy (k + 2)

/-- The natural logarithm of a positive number. -/
def ln (x : Decimal) : Except Failure Decimal :=
  if !x.isPositive then .error .lnUndefined
  else if x ≈ 1 then .ok 0
  else
    let r := Reduction.of x
    .ok (flush ((lnSeries (r.reduced - 1)).sum + Decimal.ofInt r.count))

/-! ### Powers and roots -/

/-- The power with any exponent. A negative base takes an exponent without a fraction, whose
parity gives the sign. -/
def pow (base exponent : Decimal) : Except Failure Decimal :=
  if exponent.isZero then .ok 1
  else if base.isPositive then do
    exp (exponent * (← ln base))
  else if base.isZero then
    if exponent.isPositive then .ok 0 else .error .divisionByZero
  else if exponent.hasFraction then .error .fractionalPowerOfNegative
  else do
    let size ← exp (exponent * (← ln base.abs))
    let isOdd :=
      match (exponent.round Decimal.integralDigits).remainder? (Decimal.ofInt 2) with
      | some rest => !rest.isZero
      | none => false
    .ok (if isOdd then -size else size)

/-- The square root of a number that is not negative. -/
def sqrt (x : Decimal) : Except Failure Decimal :=
  if x.isNegative then .error .fractionalPowerOfNegative
  else if x.isZero then .ok 0
  else do
    exp (half * (← ln x))

end DecimalCalculator.Elementary
