import DecimalCalculator.Text.Characters

/-!
Signs that belong to an exponent. In `1.5e-3` the minus sign is part of the literal and no
operator. The test looks at most three characters back and one ahead.
-/

namespace DecimalCalculator

/-- Whether a sign between `before`, read from the sign backward, and `after` belongs to an
exponent: it follows an `e` that follows a numeral, and a digit follows it. If the numeral is a
point, then a digit stands before that point. -/
def betweenIsExponent (before after : Text) : Bool :=
  match before, after with
  | 'e' :: '.' :: digit :: _, next :: _ => digit.isDigit && next.isDigit
  | 'e' :: numeral :: _, next :: _ => numeral.isDigit && next.isDigit
  | _, _ => false

/-- Whether a sign at the index `i` of a text belongs to an exponent. -/
def isExponentSign (t : Text) (i : Nat) : Bool :=
  betweenIsExponent (t.take i).reverse (t.drop (i + 1))

end DecimalCalculator
