import DecimalCalculator.Decimal.Integral
import DecimalCalculator.Text.Characters

/-!
The written forms of a decimal.

* `stored`: mantissa and exponent as they are stored.
* `plain`: without an exponent. `canonical`: also without the zeros that end the fraction.
* `scientific`, `engineering`: plain for moderate values, else with an exponent, which engineering
  form keeps a multiple of three.
-/

namespace DecimalCalculator

/-- A run of zeros. -/
def zeros (n : Nat) : Text := List.replicate n '0'

/-- An integer that always shows its sign. -/
def signedText (n : Int) : Text :=
  (if n < 0 then '-' else '+') :: digitsOf n.natAbs

namespace Decimal

/-- The digits of the mantissa. -/
def digits (x : Decimal) : Text := digitsOf x.mantissa.natAbs

/-- A minus sign in front of what a negative number shows. -/
def withSign (x : Decimal) (t : Text) : Text := if x.isNegative then '-' :: t else t

/-- The mantissa, the letter `e`, and the power of ten that it counts. -/
def stored (x : Decimal) : Text := integerText x.mantissa ++ 'e' :: integerText (-x.scale)

/-- The number without an exponent. -/
def plain (x : Decimal) : Text :=
  if x.isZero then ['0']
  else
    let ds := x.digits
    let places := x.scale.toNat
    x.withSign <|
      if x.scale ≤ 0 then ds ++ zeros (-x.scale).toNat
      else if places < ds.length then
        ds.take (ds.length - places) ++ '.' :: ds.drop (ds.length - places)
      else '0' :: '.' :: (zeros (places - ds.length) ++ ds)

/-- The plain form without the zeros that end the fraction: the same for equal numbers. -/
def canonical (x : Decimal) : Text := x.trimFraction.plain

/-- Whether a number is shown without an exponent: no zeros are to be added at its end, and
at most five between the point and its first digit. -/
def isModerate (x : Decimal) : Bool := 0 ≤ x.scale && -6 ≤ x.magnitude

/-- Digits with a point after the first `whole` of them, filled up with zeros to that many. -/
def pointed (ds : Text) (whole : Nat) : Text :=
  if ds.length ≤ whole then ds ++ zeros (whole - ds.length)
  else ds.take whole ++ '.' :: ds.drop whole

/-- One digit before the point, and a power of ten. -/
def scientific (x : Decimal) : Text :=
  let value := x.trimFraction
  if value.isModerate then value.plain
  else value.withSign (pointed value.digits 1 ++ 'E' :: signedText value.magnitude)

/-- One to three digits before the point, and a power of a thousand, which is left out when it is
one. -/
def engineering (x : Decimal) : Text :=
  let value := x.trimFraction
  if value.isModerate then value.plain
  else
    let shift := value.magnitude % 3
    let power := value.magnitude - shift
    let body := pointed value.digits (shift.toNat + 1)
    value.withSign (if power = 0 then body else body ++ 'E' :: signedText power)

end Decimal

end DecimalCalculator
