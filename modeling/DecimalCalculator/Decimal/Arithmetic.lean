import DecimalCalculator.Decimal.Basic

/-!
Arithmetic of decimals.

* `round`: rounding to a number of significant digits, a half going away from zero.
* `+` and `-` are exact, at the larger of the two scales.
* `*` and `/` keep 32 significant digits.
* `remainder?`, `power?`: the truncating remainder and powers with an integer exponent.
-/

namespace DecimalCalculator

/-- The quotient rounded to the nearest integer, a half going away from zero. -/
def divideHalfAway (n : Int) (d : Nat) : Int :=
  if d ≤ 2 * (n.tmod d).natAbs then
    if n < 0 then n.tdiv d - 1 else n.tdiv d + 1
  else n.tdiv d

namespace Decimal

/-! ### Rounding -/

/-- The decimal rounded to `digits` significant digits, a half going away from zero. A
decimal that holds no more digits is left as it is. Rounding up `99…9` gives one digit too
many, a zero, which is then dropped. -/
def round (x : Decimal) (digits : Nat) : Decimal :=
  if x.precision ≤ digits then x
  else
    let dropped := x.precision - digits
    let rounded := divideHalfAway x.mantissa (Nat.pow 10 dropped)
    if digits < digitCount rounded.natAbs then ⟨rounded.tdiv 10, x.scale - dropped - 1⟩
    else ⟨rounded, x.scale - dropped⟩

/-! ### Sums and differences -/

instance : Add Decimal where
  add x y :=
    let s := max x.scale y.scale
    ⟨x.mantissaAt s + y.mantissaAt s, s⟩

instance : Sub Decimal where
  sub x y :=
    let s := max x.scale y.scale
    ⟨x.mantissaAt s - y.mantissaAt s, s⟩

/-! ### Products and quotients -/

/-- The exact product rounded to `digits` significant digits. -/
def timesRounded (x y : Decimal) (digits : Nat) : Decimal :=
  round ⟨x.mantissa * y.mantissa, x.scale + y.scale⟩ digits

instance : Mul Decimal := ⟨fun x y => x.timesRounded y workingDigits⟩

/-- How many zeros the dividend takes on so that the truncated quotient has at least one digit
beyond those kept: all that rounding a half away from zero needs to see. -/
def quotientShift (x y : Decimal) : Nat := workingDigits + 1 + y.precision - x.precision

/-- The quotient by a nonzero divisor, at the working precision. -/
def quotient (x y : Decimal) : Decimal :=
  if x.isZero then 0
  else
    let shift := x.quotientShift y
    round ⟨(x.mantissa * tenPow shift).tdiv y.mantissa, x.scale - y.scale + shift⟩ workingDigits

instance : Div Decimal := ⟨quotient⟩

/-- The quotient, which a zero divisor has not. -/
def quotient? (x y : Decimal) : Option Decimal :=
  if y.isZero then none else some (x / y)

/-- The quotient by a positive whole number. -/
def dividedBy (x : Decimal) (n : Nat) : Decimal := x / ofInt n

/-- The remainder of the division truncated toward zero, with the sign of `x`. There is none
if the divisor is zero, or if the whole quotient has more digits than the working precision.
-/
def remainder? (x y : Decimal) : Option Decimal :=
  if y.isZero then none
  else
    let s := max x.scale y.scale
    let whole := (x.mantissaAt s).tdiv (y.mantissaAt s)
    if workingDigits < digitCount whole.natAbs then none
    else some ⟨(x.mantissaAt s).tmod (y.mantissaAt s), s⟩

/-! ### Integer powers -/

/-- The digits kept between the steps of a power, eight more than its result has. -/
def powerDigits : Nat := workingDigits + 8

/-- Multiplies `product` by `base ^ n`, one binary digit of `n` at a time from the lowest;
the first argument bounds the number of digits. -/
def powerLoop : Nat → Nat → Decimal → Decimal → Decimal
  | 0, _, _, product => product
  | bound + 1, n, base, product =>
    let product := if n % 2 = 1 then product.timesRounded base powerDigits else product
    if n / 2 = 0 then product
    else powerLoop bound (n / 2) (base.timesRounded base powerDigits) product

/-- The power with an integer exponent, by repeated squaring. There is none for zero to a negative
exponent, nor where the exponent of the result could leave the range of scales. -/
def power? (x : Decimal) (n : Int) : Option Decimal :=
  if n = 0 then some 1
  else if x.isZero then
    if 0 < n then some 0 else none
  else if scaleLimit < (x.magnitude.natAbs + 1) * n.natAbs then none
  else
    let product := powerLoop (n.natAbs.log2 + 1) n.natAbs x 1
    some (if n < 0 then 1 / product else product.round workingDigits)

end Decimal

end DecimalCalculator
