import DecimalCalculator.Decimal.Arithmetic

/-!
The order of decimals as numbers.

* `order`: comparison of two decimals. It looks at signs and leading digits first, so that numbers
  far apart are never brought to a common scale.
* `x ≈ y`, `x < y`, `x ≤ y`: equality and order of the numbers, whatever their representations.
-/

namespace DecimalCalculator.Decimal

/-- How two decimals compare as numbers. -/
def order (x y : Decimal) : Ordering :=
  match compare x.mantissa.sign y.mantissa.sign with
  | .eq =>
    if x.mantissa = 0 then .eq
    else
      match compare x.magnitude y.magnitude with
      | .eq =>
        let s := max x.scale y.scale
        compare (x.mantissaAt s) (y.mantissaAt s)
      | farther => if x.mantissa < 0 then farther.swap else farther
  | signs => signs

instance : Ord Decimal := ⟨order⟩

instance : HasEquiv Decimal := ⟨fun x y => x.order y = .eq⟩

instance : LT Decimal := ⟨fun x y => x.order y = .lt⟩

instance : LE Decimal := ⟨fun x y => x.order y ≠ .gt⟩

instance (x y : Decimal) : Decidable (x ≈ y) := inferInstanceAs (Decidable (x.order y = .eq))

instance (x y : Decimal) : Decidable (x < y) := inferInstanceAs (Decidable (x.order y = .lt))

instance (x y : Decimal) : Decidable (x ≤ y) := inferInstanceAs (Decidable (x.order y ≠ .gt))

end DecimalCalculator.Decimal
