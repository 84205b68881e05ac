import DecimalCalculator.Decimal.Order

/-!
Integral views of a decimal: its fraction and whole part, whether it is an integer, and its
value as a 64-bit integer. All of them look at the scale or the leading digit before they
form a power of ten, so that tiny values stay cheap.
-/

namespace DecimalCalculator.Decimal

/-- The decimal `m * 10 ^ (-s)` without the zeros that end its fraction. -/
def stripZeros : Nat → Int → Decimal
  | 0, m => ⟨m, 0⟩
  | s + 1, m => if m.tmod 10 = 0 then stripZeros s (m.tdiv 10) else ⟨m, s + 1⟩

/-- The decimal without the zeros that end its fraction; zero loses its scale. -/
def trimFraction (x : Decimal) : Decimal :=
  if x.isZero then 0
  else if x.scale ≤ 0 then x
  else stripZeros x.scale.toNat x.mantissa

/-- The fractional part, with the sign of `x`. -/
def fract (x : Decimal) : Decimal :=
  if x.scale ≤ 0 then 0
  else if x.magnitude < 0 then x
  else ⟨x.mantissa.tmod (tenPow x.scale.toNat), x.scale⟩

/-- The value rounded toward zero to an integer. -/
def trunc (x : Decimal) : Decimal := x - x.fract

/-- Whether the value is an integer. -/
def isInteger (x : Decimal) : Bool := x.fract.isZero

/-- Whether the value differs from the whole part of its rounding to 21 digits. A longer integer
whose further digits are not all zero counts as fractional too. -/
def hasFraction (x : Decimal) : Bool := ¬ x ≈ (x.round integralDigits).trunc

/-- The range of 64-bit integers. -/
def isInt64 (n : Int) : Bool := -0x8000000000000000 ≤ n && n < 0x8000000000000000

/-- The value rounded toward zero, if that is a 64-bit integer. -/
def toInt64? (x : Decimal) : Option Int :=
  if x.isZero || x.magnitude < 0 then some 0
  else if 18 < x.magnitude then none
  else
    let whole :=
      if x.scale ≤ 0 then x.mantissa * tenPow (-x.scale).toNat
      else x.mantissa.tdiv (tenPow x.scale.toNat)
    if isInt64 whole then some whole else none

/-- The value rounded to 21 digits, if that is a 64-bit integer. -/
def roundedInt64? (x : Decimal) : Option Int :=
  let rounded := x.round integralDigits
  if rounded.isInteger then rounded.toInt64? else none

end DecimalCalculator.Decimal
