import DecimalCalculator.Elementary.Circular

/-!
The hyperbolic functions, from `exp`, and their inverses, from `ln`.
-/

namespace DecimalCalculator.Elementary

/-! ### Hyperbolic functions -/

/-- The quotient, where a divisor that has become zero counts as an overflow. -/
def quotientOrOverflow (x y : Decimal) : Except Failure Decimal := quotientOr .overflow x y

/-- The exponentials of `x` and of `-x`. -/
def exponentials (x : Decimal) : Except Failure (Decimal × Decimal) := do
  let growing ← exp x
  let falling ← quotientOrOverflow 1 growing
  .ok (growing, falling)

/-- The hyperbolic sine. -/
def sinh (x : Decimal) : Except Failure Decimal := do
  let (growing, falling) ← exponentials x
  .ok ((growing - falling).dividedBy 2)

/-- The hyperbolic cosine. -/
def cosh (x : Decimal) : Except Failure Decimal := do
  let (growing, falling) ← exponentials x
  .ok ((growing + falling).dividedBy 2)

/-- The hyperbolic tangent. -/
def tanh (x : Decimal) : Except Failure Decimal := do
  let (growing, falling) ← exponentials x
  quotientOrOverflow (growing - falling) (growing + falling)

/-- The hyperbolic secant. -/
def sech (x : Decimal) : Except Failure Decimal := do
  quotientOrOverflow 1 (← cosh x)

/-- The hyperbolic cosecant, undefined at zero. -/
def csch (x : Decimal) : Except Failure Decimal :=
  if x.isZero then .error .cschUndefined
  else do
    quotientOrOverflow 1 (← sinh x)

/-- The hyperbolic cotangent, undefined at zero. -/
def coth (x : Decimal) : Except Failure Decimal :=
  if x.isZero then .error .cothUndefined
  else do
    let (growing, falling) ← exponentials x
    quotientOrOverflow (growing + falling) (growing - falling)

/-! ### Inverse hyperbolic functions -/

/-- The inverse hyperbolic sine. -/
def arcsinh (x : Decimal) : Except Failure Decimal := do
  let root ← sqrt (x * x + 1)
  ln (x + root)

/-- The inverse hyperbolic cosine, of arguments from one on. -/
def arccosh (x : Decimal) : Except Failure Decimal :=
  if x < 1 then .error .arccoshUndefined
  else do
    let root ← sqrt (x * x - 1)
    ln (x + root)

/-- The inverse hyperbolic tangent, of arguments of size below one: half the logarithm of
`(1 + x) / (1 - x)`. -/
def arctanh (x : Decimal) : Except Failure Decimal :=
  if 1 ≤ x.abs then .error .arctanhUndefined
  else do
    let logarithm ← ln ((← quotientOrAbort (Decimal.ofInt 2) (1 - x)) - 1)
    .ok (half * logarithm)

/-- The inverse hyperbolic secant, of arguments above zero and up to one. -/
def arcsech (x : Decimal) : Except Failure Decimal :=
  if !x.isPositive || decide (1 < x) then .error .arcsechUndefined
  else do
    arccosh (← quotientOrAbort 1 x)

/-- The inverse hyperbolic cosecant, undefined at zero. -/
def arccsch (x : Decimal) : Except Failure Decimal :=
  if x.isZero then .error .arccschUndefined
  else do
    arcsinh (← quotientOrAbort 1 x)

/-- The inverse hyperbolic cotangent, of arguments of size above one. -/
def arccoth (x : Decimal) : Except Failure Decimal :=
  if x.abs ≤ 1 then .error .arccothUndefined
  else do
    arctanh (← quotientOrAbort 1 x)

end DecimalCalculator.Elementary
