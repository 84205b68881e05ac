import DecimalCalculator.Elementary.Exponential

/-!
The circular functions and their inverses, of angles in radians.

* `sin`, `cos`: the angle is reduced to one turn, then the alternating series is summed.
* `tan`, `sec`, `csc`, `cot`: quotients of these, undefined where the divisor is zero.
* `arctan`: the argument is reduced by the tangent of a complement and of a difference.
* `arcsin` and the other inverses: through `arctan`.
-/

namespace DecimalCalculator.Elementary

/-! ### Sine and cosine -/

/-- The angle less its whole turns. -/
def reduceAngle (x : Decimal) : Decimal := (x / fullTurn).fract * fullTurn

/-- The alternating series whose terms come from `first` by factors `-x ^ 2 / (i * (i +
1))`, where `i` goes from `start` in steps of two. -/
def alternatingSeries (x first : Decimal) (start : Nat) : Series :=
  let square := x * x
  { first
    advance := fun k factor =>
      let i := start + 2 * k
      factor * -square.dividedBy (i * (i + 1))
    term := fun _ factor => factor }

/-- The sine. -/
def sin (x : Decimal) : Decimal :=
  let angle := reduceAngle x.abs
  let value := flush (alternatingSeries angle angle 2).sum
  if x.isNegative then -value else value

/-- The cosine. -/
def cos (x : Decimal) : Decimal := flush (alternatingSeries (reduceAngle x.abs) 1 1).sum

/-! ### Quotients of sine and cosine -/

/-- The tangent. -/
def tan (x : Decimal) : Except Failure Decimal := quotientOr .tanUndefined (sin x) (cos x)

/-- The secant. -/
def sec (x : Decimal) : Except Failure Decimal := quotientOr .secUndefined 1 (cos x)

/-- The cosecant. -/
def csc (x : Decimal) : Except Failure Decimal := quotientOr .cscUndefined 1 (sin x)

/-- The cotangent. -/
def cot (x : Decimal) : Except Failure Decimal := quotientOr .cotUndefined (cos x) (sin x)

/-! ### Inverse functions -/

/-- The series of the inverse tangent: `x - x ^ 3 / 3 + x ^ 5 / 5 - …`. -/
def arctanSeries (x : Decimal) : Series :=
  let square := x * x
  { first := x
    advance := fun _ factor => factor * -square
    term := fun k factor => factor.dividedBy (2 * k + 3) }

/-- The inverse tangent. An argument above one is replaced by its reciprocal, whose angle is the
complement; one still above the bound is turned back by a twelfth of a turn. -/
def arctan (x : Decimal) : Except Failure Decimal :=
  if x.isZero then .ok 0
  else do
    let size := x.abs
    let isReciprocal := decide (1 < size)
    let size ← if isReciprocal then quotientOrAbort 1 size else .ok size
    let isRotated := decide (arctanBound < size)
    let size ←
      if isRotated then quotientOrAbort (rootThree * size - 1) (rootThree + size) else .ok size
    let angle := flush (arctanSeries size).sum
    let angle := if isRotated then twelfthTurn + angle else angle
    let angle := if isReciprocal then quarterTurn - angle else angle
    .ok (if x.isNegative then -angle else angle)

/-- The inverse sine, of arguments from minus one to one. -/
def arcsin (x : Decimal) : Except Failure Decimal :=
  if 1 < x.abs then .error .arcsinUndefined
  else if x.isZero then .ok 0
  else if x.abs ≈ 1 then .ok (if x.isNegative then -quarterTurn else quarterTurn)
  else do
    let cosine ← sqrt (1 - x * x)
    arctan (← quotientOrAbort x cosine)

/-- The inverse cosine, of arguments from minus one to one. -/
def arccos (x : Decimal) : Except Failure Decimal :=
  if 1 < x.abs then .error .arccosUndefined
  else do
    .ok (quarterTurn - (← arcsin x))

/-- The inverse secant, of arguments of size at least one. -/
def arcsec (x : Decimal) : Except Failure Decimal :=
  if x.abs < 1 then .error .arcsecUndefined
  else do
    arccos (← quotientOrAbort 1 x)

/-- The inverse cosecant, of arguments of size at least one. -/
def arccsc (x : Decimal) : Except Failure Decimal :=
  if x.abs < 1 then .error .arccscUndefined
  else do
    arcsin (← quotientOrAbort 1 x)

/-- The inverse cotangent. -/
def arccot (x : Decimal) : Except Failure Decimal :=
  if x.isZero then .ok quarterTurn
  else do
    arctan (← quotientOrAbort 1 x)

/-! ### Degrees -/

/-- An angle in degrees, in radians. -/
def toRadians (x : Decimal) : Decimal := x * degree

/-- An angle in radians, in degrees. -/
def toDegrees (x : Decimal) : Decimal := x / degree

/-- The inverse cotangent in degrees, exactly a right angle at zero. -/
def arccotDegrees (x : Decimal) : Except Failure Decimal :=
  if x.isZero then .ok (Decimal.ofInt 90) else (arccot x).map toDegrees

end DecimalCalculator.Elementary
