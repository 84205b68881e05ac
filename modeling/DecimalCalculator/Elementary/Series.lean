import DecimalCalculator.Elementary.Constants

/-!
Series that are summed until a term falls below the threshold.

* `Series`: the first term, and how each further term comes from a running factor.
* `Series.run`: the state after some steps. `Series.sum`: the sum, up to and with the first
  term below the threshold.
-/

namespace DecimalCalculator.Elementary

/-- A series given by a running factor. Step `k` turns the factor into `advance k` of it, and adds
`term k` of the new factor to the sum. The sum begins with the first factor. -/
structure Series where
  first : Decimal
  advance : Nat → Decimal → Decimal
  term : Nat → Decimal → Decimal

namespace Series

/-- The state between two steps: the factor, the sum, and whether the last term was below the
threshold. -/
structure State where
  factor : Decimal
  sum : Decimal
  done : Bool

/-- The state before the first step. -/
def start (s : Series) : State := ⟨s.first, s.first, false⟩

/-- One step. -/
def step (s : Series) (k : Nat) (state : State) : State :=
  let factor := s.advance k state.factor
  let term := s.term k factor
  ⟨factor, state.sum + term, term.abs < threshold⟩

/-- At most `bound` steps from step `k` on, ending early once a term is below the threshold. -/
def run (s : Series) : Nat → Nat → State → State
  | 0, _, state => state
  | bound + 1, k, state => if state.done then state else s.run bound (k + 1) (s.step k state)

/-- More steps than any series takes on the arguments that the functions give it. -/
def stepBound : Nat := 1000

/-- The sum of the terms up to the first one below the threshold. -/
def sum (s : Series) : Decimal := (s.run stepBound 0 s.start).sum

end Series

end DecimalCalculator.Elementary
