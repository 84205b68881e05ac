import DecimalCalculator.Decimal.Basic
import DecimalCalculator.Text.Characters

/-!
Decimal literals: at most one sign, digits with at most one point among them, and at most
one exponent, written `e` or `E`, whose integer may carry a sign of its own. Either side of
the point may be empty, but not both.

* `Decimal.ofText?`: the decimal that a literal spells. Its mantissa is the integer that all
  the digits spell, and its scale is the number of digits after the point less the exponent.
-/

namespace DecimalCalculator

/-- Takes a leading sign off a text, and says whether it is a minus sign. -/
def splitSign : Text → Bool × Text
  | '-' :: rest => (true, rest)
  | '+' :: rest => (false, rest)
  | rest => (false, rest)

/-- The integer that digits spell, negated if `negative` holds. -/
def signedValue (negative : Bool) (digits : Text) : Int :=
  if negative then -(digitsValue digits : Int) else digitsValue digits

namespace Decimal

/-- The exponent of a literal: a 64-bit integer. -/
def exponent? (t : Text) : Option Int :=
  let (negative, digits) := splitSign t
  let value := signedValue negative digits
  if digits.isEmpty || !digits.all Char.isDigit then none
  else if -0x8000000000000000 ≤ value && value < 0x8000000000000000 then some value
  else none

/-- The decimal that a literal spells, or nothing if the text is no literal or its scale is out of
range. -/
def ofText? (t : Text) : Option Decimal :=
  let (negative, unsigned) := splitSign t
  let (number, exponent) := cutAt (fun c => c = 'e' || c = 'E') unsigned
  let (whole, afterPoint) := cutAt (· = '.') number
  let fraction := afterPoint.getD []
  if (whole.isEmpty && fraction.isEmpty) || !whole.all Char.isDigit || !fraction.all Char.isDigit
  then none
  else do
    let e ← match exponent with
      | none => some 0
      | some written => exponent? written
    let scale := fraction.length - e
    if scaleLimit < scale.natAbs then none
    else some ⟨signedValue negative (whole ++ fraction), scale⟩

/-- Whether a text is a decimal literal. -/
def isLiteral (t : Text) : Bool := (ofText? t).isSome

/-- What is reported of a text that is no literal. -/
def literalError (t : Text) : Text := text "Invalid decimal literal `" ++ t ++ ['`']

end Decimal

end DecimalCalculator
