/-!
Decimal numbers of arbitrary precision: a mantissa times a power of ten.

* `digitCount`: the number of decimal digits of a natural number, found without writing it down.
* `Decimal`: the value `mantissa * 10 ^ (-scale)`. The representation is significant: `2.5` and
  `2.50` are the same number but different decimals, and no operation normalizes its result.
* `precision`, `magnitude`: how many digits the mantissa holds, and the exponent of the first one.
-/

namespace DecimalCalculator

/-! ### Counting digits -/

/-- The number of digits of `n`, counted by dividing by ten until one digit is left. The first
argument bounds the divisions. -/
def countDigits : Nat → Nat → Nat
  | 0, _ => 1
  | bound + 1, n => if n < 10 then 1 else countDigits bound (n / 10) + 1

/-- The number of decimal digits of `n`, where zero has one. Because `10 ^ 59 ≤ 2 ^ 196`,
the power `10 ^ (59 * log2 n / 196)` is at most `n` and nearly of its size, so only the few
digits of the quotient by it are counted one by one. -/
def digitCount (n : Nat) : Nat :=
  let known := 59 * n.log2 / 196
  known + countDigits n.log2 (n / Nat.pow 10 known)

/-- A power of ten. -/
def tenPow (k : Nat) : Int := (Nat.pow 10 k : Nat)

/-! ### Decimals -/

/-- The decimal number `mantissa * 10 ^ (-scale)`. Equality of decimals is that of
representations; equality of numbers is `≈`. -/
structure Decimal where
  mantissa : Int
  scale : Int
deriving DecidableEq

namespace Decimal

/-- The significant digits that a product, a quotient or a power keeps. -/
def workingDigits : Nat := 32

/-- The significant digits that decide whether a value counts as an integer. -/
def integralDigits : Nat := 21

/-- The largest magnitude of the scale of a literal, and of the exponent of an integer power: the
largest integer of 32 bits. -/
def scaleLimit : Int := 0x7fffffff

/-- An integer as a decimal of scale zero. -/
def ofInt (n : Int) : Decimal := ⟨n, 0⟩

instance : Zero Decimal := ⟨ofInt 0⟩

instance : One Decimal := ⟨ofInt 1⟩

/-- The number of digits that the mantissa holds. -/
def precision (x : Decimal) : Nat := digitCount x.mantissa.natAbs

/-- The exponent of the most significant digit. -/
def magnitude (x : Decimal) : Int := x.precision - 1 - x.scale

/-- Whether the number is zero. -/
def isZero (x : Decimal) : Bool := x.mantissa = 0

/-- Whether the number is below zero. -/
def isNegative (x : Decimal) : Bool := x.mantissa < 0

/-- Whether the number is above zero. -/
def isPositive (x : Decimal) : Bool := 0 < x.mantissa

/-- The absolute value, at the same scale. -/
def abs (x : Decimal) : Decimal := ⟨x.mantissa.natAbs, x.scale⟩

instance : Neg Decimal := ⟨fun x => ⟨-x.mantissa, x.scale⟩⟩

/-- The mantissa of the same number at the scale `s`, which is at least the scale of `x`. -/
def mantissaAt (x : Decimal) (s : Int) : Int := x.mantissa * tenPow (s - x.scale).toNat

end Decimal

end DecimalCalculator
