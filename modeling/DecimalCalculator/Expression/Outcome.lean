import DecimalCalculator.Failure

/-!
What an evaluation of bounded depth comes to.

* `Outcome`: a value, a failure, or neither, because the evaluation would nest deeper than
  allowed.
-/

namespace DecimalCalculator

/-- The outcome of an evaluation that may nest to a bounded depth only. -/
inductive Outcome (α : Type) where
  | value (a : α)
  | failed (f : Failure)
  | exhausted
deriving DecidableEq

namespace Outcome

/-- Goes on with the value, if there is one. -/
@[inline] def bind {α β : Type} (o : Outcome α) (next : α → Outcome β) : Outcome β :=
  match o with
  | value a => next a
  | failed f => failed f
  | exhausted => exhausted

instance : Monad Outcome where
  pure := value
  bind := bind

/-- The outcome of a computation that does not nest. -/
def ofExcept {α : Type} : Except Failure α → Outcome α
  | .ok a => value a
  | .error f => failed f

/-- The value or failure. Nesting too deep is reported as an overflow. -/
def toExcept {α : Type} : Outcome α → Except Failure α
  | value a => .ok a
  | failed f => .error f
  | exhausted => .error .overflow

/-- The value of an option, or a failure. -/
def ofOption {α : Type} (f : Failure) : Option α → Outcome α
  | some a => value a
  | none => failed f

end Outcome

end DecimalCalculator
