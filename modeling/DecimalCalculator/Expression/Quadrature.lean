import DecimalCalculator.Decimal.Arithmetic
import DecimalCalculator.Expression.Outcome
import DecimalCalculator.Session.Modes

/-!
Sums of samples: quadrature rules, and sums and products over integers.

* `Quadrature`: the points at which a rule samples, with their weights.
  `QuadratureRule.onInterval` lays them out over an interval.
* `Quadrature.total`: the weighted sum of the samples, scaled to an area.
* `foldRange`: a sum or product over a range of integers.
-/

namespace DecimalCalculator

/-! ### Quadrature rules over an interval -/

/-- The weight of the point `i` of a rule over some panels: one at both ends, and inside the
interval what the cycle of weights holds for `i`. -/
def cycleWeight (panels : Nat) (cycle : List Nat) (i : Nat) : Nat :=
  if i = 0 ∨ i = panels then 1 else cycle.getD (i % cycle.length) 1

/-- Equally spaced points with weights, and the factor that turns their weighted sum into an
area. -/
structure Quadrature where
  points : Nat
  first : Decimal
  spacing : Decimal
  weight : Nat → Nat
  factor : Decimal

namespace Quadrature

/-- The points at the ends of panels between two bounds, the weights inside going through a
cycle. -/
def overPanels (lower upper : Decimal) (panels : Nat) (cycle : List Nat)
    (factor : Decimal → Decimal) : Quadrature :=
  let spacing := (upper - lower).dividedBy panels
  ⟨panels + 1, lower, spacing, cycleWeight panels cycle, factor spacing⟩

/-- One point in each panel between two bounds, from a first point that depends on their width. -/
def inPanels (lower upper : Decimal) (panels : Nat) (offset : Decimal → Decimal) : Quadrature :=
  let spacing := (upper - lower).dividedBy panels
  ⟨panels, lower + offset spacing, spacing, fun _ => 1, spacing⟩

/-- Adds the samples of `remaining` points from the point `i` at `x` on to a sum. -/
def addSamples (q : Quadrature) (sample : Nat → Decimal → Outcome Decimal) :
    Nat → Nat → Decimal → Decimal → Outcome Decimal
  | 0, _, _, sum => .value sum
  | remaining + 1, i, x, sum =>
    match sample i x with
    | .value y =>
      let weighted := if q.weight i = 1 then y else y * Decimal.ofInt (q.weight i)
      q.addSamples sample remaining (i + 1) (x + q.spacing) (sum + weighted)
    | .failed f => .failed f
    | .exhausted => .exhausted

/-- The area under a function. -/
def total (q : Quadrature) (sample : Nat → Decimal → Outcome Decimal) : Outcome Decimal := do
  let sum ← q.addSamples sample q.points 0 q.first 0
  pure (sum * q.factor)

end Quadrature

namespace QuadratureRule

/-- The points and weights of a rule between two bounds. -/
def onInterval (rule : QuadratureRule) (divisions : Divisions) (lower upper : Decimal) :
    Quadrature :=
  let n := divisions.count
  match rule with
  | rectangle => .inPanels lower upper n fun spacing => spacing
  | midpoint => .inPanels lower upper n fun spacing => spacing.dividedBy 2
  | trapezoid => .overPanels lower upper n [2] fun spacing => spacing.dividedBy 2
  | simpson => .overPanels lower upper (2 * n) [2, 4] fun spacing => spacing.dividedBy 3
  | simpson38 =>
    .overPanels lower upper (3 * n) [2, 3, 3] fun spacing =>
      (spacing * Decimal.ofInt 3).dividedBy 8

end QuadratureRule

/-! ### Sums and products -/

/-- Combines the samples at `remaining` integers from `k` on with a total. -/
def foldRange (combine : Decimal → Decimal → Except Failure Decimal)
    (sample : Int → Outcome Decimal) : Nat → Int → Decimal → Outcome Decimal
  | 0, _, total => .value total
  | remaining + 1, k, total =>
    match sample k with
    | .value y =>
      match combine total y with
      | .ok total => foldRange combine sample remaining (k + 1) total
      | .error f => .failed f
    | .failed f => .failed f
    | .exhausted => .exhausted

end DecimalCalculator
