import DecimalCalculator.Decimal.Basic
import DecimalCalculator.Session.Modes

/-!
The state of a session: its modes and its four registers.
-/

namespace DecimalCalculator

/-- The modes under which expressions are evaluated, and the registers they may name. -/
structure Session where
  angleMode : AngleMode
  rule : QuadratureRule
  divisions : Divisions
  /-- The value of `ans`. -/
  answer : Decimal
  /-- The value of `mem`. -/
  memory : Decimal
  /-- The text that stands for `fans` in the function of an aggregate. -/
  functionAnswer : Text
  /-- The text that stands for `fmem` in the function of an aggregate. -/
  functionMemory : Text
deriving DecidableEq

namespace Session

/-- A new session: radians, the three-eighths rule, the standard number of panels, and
registers that hold zero and no text. -/
def fresh : Session :=
  ⟨.radians, .simpson38, .standard, 0, 0, [], []⟩

end Session

end DecimalCalculator
