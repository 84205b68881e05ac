import DecimalCalculator.Expression.Evaluate
import DecimalCalculator.Text.ImplicitProduct

/-!
Evaluation in a session.

* `Session.compute`: the value of an expression, with no register touched.
* `Session.evaluate`, `Session.evaluateLine`: the value also becomes the answer. A failure
  leaves the session as it was.
* `Session.sampleAt`: a function of the variable at one point.
-/

namespace DecimalCalculator

namespace Session

/-- The nesting that the function registers may add to that of an expression. No memory holds an
evaluation nested so deep: it breaks off before. -/
def registerNesting : Nat := 0x4000000000000000

/-- The depth to which the evaluation of a text may nest. Without function registers each
level takes at least one character of the text, so that the first two summands are enough.
Where a register is put in, its characters may add levels of their own. -/
def allowedDepth (s : Session) (t : Text) : Nat :=
  (normalizeCase t).length + 1 +
    if s.functionAnswer.isEmpty && s.functionMemory.isEmpty then 0
    else
      registerNesting + (normalizeCase s.functionAnswer).length +
        (normalizeCase s.functionMemory).length

/-- The value of an expression. -/
def compute (s : Session) (draws : Draws) (t : Text) : Except Failure Decimal :=
  (evaluateWithin s draws (s.allowedDepth t) [] t).toExcept

/-- The value of an expression, and the session in which it is the answer. -/
def evaluate (s : Session) (draws : Draws) (t : Text) : Except Failure Decimal × Session :=
  match s.compute draws t with
  | .ok x => (.ok x, { s with answer := x })
  | .error f => (.error f, s)

/-- The value of a line as the user wrote it. -/
def evaluateLine (s : Session) (draws : Draws) (line : Text) : Except Failure Decimal × Session :=
  s.evaluate draws (preprocess line)

/-- The line that answers a line, with a value shown to some digits. -/
def answerLine (s : Session) (draws : Draws) (line : Text) (digits : Nat) :
    Except Text Text × Session :=
  match s.evaluateLine draws line with
  | (.ok x, s) => (.ok (x.round digits).scientific, s)
  | (.error f, s) => (.error f.report, s)

/-- The value of a function of the variable at one point. -/
def sampleAt (s : Session) (draws : Draws) (function : Text) (x : Decimal) :
    Except Failure Decimal :=
  s.compute draws ((s.template function).render x)

end Session

end DecimalCalculator
