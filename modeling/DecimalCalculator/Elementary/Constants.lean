import DecimalCalculator.Decimal.Order

/-!
The constants of the elementary functions. `e`, `pi` and the root of three hold 46 digits,
fourteen more than the working precision; the others are computed from these at the working
precision.
-/

namespace DecimalCalculator.Elementary

/-- The base of the natural logarithm. -/
def e : Decimal := ⟨2718281828459045235360287471352662497757247093, 45⟩

/-- The ratio of a circle's circumference to its diameter. -/
def pi : Decimal := ⟨3141592653589793238462643383279502884197169399, 45⟩

/-- The square root of three. -/
def rootThree : Decimal := ⟨1732050807568877293527446341505872366942805253, 45⟩

/-- A series ends at the first term below this threshold, and a result below it counts as zero. -/
def threshold : Decimal := ⟨1, 30⟩

/-- One half. -/
def half : Decimal := ⟨5, 1⟩

/-- The lower end of the interval in which the series of the logarithm is summed: `2 / (e +
1)`, whose distance below one is that of `e` times it above one. -/
def lnLower : Decimal := Decimal.ofInt 2 / (e + 1)

/-- The upper end of the interval in which the series of the logarithm is summed. -/
def lnUpper : Decimal := lnLower * e

/-- The largest argument for which the series of the inverse tangent is summed directly, close to
`2 - √3`, the tangent of a twelfth of a half turn. -/
def arctanBound : Decimal := ⟨267949192431122706, 18⟩

/-- A full turn. -/
def fullTurn : Decimal := Decimal.ofInt 2 * pi

/-- A quarter of a turn. -/
def quarterTurn : Decimal := pi.dividedBy 2

/-- A twelfth of a turn. -/
def twelfthTurn : Decimal := pi.dividedBy 6

/-- One degree, as an angle in radians. -/
def degree : Decimal := pi.dividedBy 180

/-- The value, or zero if it lies below the threshold. -/
def flush (x : Decimal) : Decimal := if x.abs < threshold then 0 else x

end DecimalCalculator.Elementary
