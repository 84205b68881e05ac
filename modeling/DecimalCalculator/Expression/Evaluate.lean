import DecimalCalculator.Decimal.Literal
import DecimalCalculator.Expression.Arguments
import DecimalCalculator.Expression.Draws
import DecimalCalculator.Expression.Quadrature
import DecimalCalculator.Expression.Scan
import DecimalCalculator.Expression.Template

/-!
The value of an expression, found by dividing its text.

* `productOf`, `quotientOf`: products and quotients, whose scales have to fit in 64 bits.
* `evaluateStep`: the value of a text, given the values of the texts that it divides into.
* `evaluateWithin`: the value of a text whose parts nest to a bounded depth.

A text divides at the loosest operator outside brackets. Without one it is a call, a register, a
constant or a literal.
-/

namespace DecimalCalculator

/-- What finds the value of a part of an expression, at a place below the whole. -/
abbrev Evaluator := Place → Text → Outcome Decimal

/-! ### Powers -/

/-- The exponent as an integer of 32 bits, if it is one. -/
def smallExponent? (exponent : Decimal) : Option Int := do
  let n ← exponent.toInt64?
  if exponent.isInteger ∧ -0x80000000 ≤ n ∧ n < 0x80000000 then some n else none

/-- The power of two values: by repeated squaring for a small integer exponent, else through the
exponential function. -/
def raise (base exponent : Decimal) : Except Failure Decimal :=
  if base.isZero ∧ exponent.isNegative then .error .divisionByZero
  else if base.isNegative ∧ exponent.hasFraction then .error .fractionalPowerOfNegative
  else
    match (smallExponent? exponent).bind base.power? with
    | some value => .ok value
    | none => Elementary.pow base exponent

/-! ### Products and quotients -/

/-- Goes on if a scale fits in 64 bits. -/
def checkScale (f : Failure) (scale : Int) : Except Failure Unit :=
  if Decimal.isInt64 scale then .ok () else .error f

/-- The product of two values. The scale of the exact product has to fit in 64 bits, and so has that
of the rounded one. -/
def productOf (x y : Decimal) : Except Failure Decimal := do
  let product := x * y
  checkScale .scaleSum (x.scale + y.scale)
  checkScale .scaleDifference product.scale
  .ok product

/-- The quotient of two values, of which the second is not zero. All scales on the way to the
rounded quotient have to fit in 64 bits. -/
def quotientOf (x y : Decimal) : Except Failure Decimal := do
  let quotient := x / y
  if x.isZero then .ok quotient
  else do
    checkScale .scaleDifference (x.scale - y.scale)
    checkScale .scaleSum (x.scale - y.scale + x.quotientShift y)
    checkScale .scaleDifference quotient.scale
    .ok quotient

/-! ### Operators -/

/-- The value of a text that divides at an operator. The divisor of a quotient or remainder
comes first, and its being zero is reported before the dividend is looked at. -/
def evaluateOperator (evaluate : Evaluator) (place : Place) (op : Operator) (left right : Text) :
    Outcome Decimal :=
  match op with
  | .plus => do
    let x ← evaluate (.left :: place) left
    let y ← evaluate (.right :: place) right
    pure (x + y)
  | .minus => do
    let x ← evaluate (.left :: place) left
    let y ← evaluate (.right :: place) right
    pure (x - y)
  | .times => do
    let x ← evaluate (.left :: place) left
    let y ← evaluate (.right :: place) right
    .ofExcept (productOf x y)
  | .divide => do
    let y ← evaluate (.right :: place) right
    if y.isZero then .failed .divisionByZero
    else do
      let x ← evaluate (.left :: place) left
      .ofExcept (quotientOf x y)
  | .power => do
    let x ← evaluate (.left :: place) left
    let y ← evaluate (.right :: place) right
    .ofExcept (raise x y)
  | .modulo => do
    let y ← evaluate (.right :: place) right
    if y.isZero then .failed .divisionByZero
    else do
      let x ← evaluate (.left :: place) left
      .ofOption .overflow (x.remainder? y)

/-- The value of a text that divides at an operator into two parts, which must not be empty.
Only a minus sign may lack its left part: then it negates. -/
def evaluateParts (evaluate : Evaluator) (place : Place) (op : Operator) (left right : Text) :
    Outcome Decimal :=
  if right.isEmpty then .failed .missingArgument
  else if left.isEmpty then
    match op with
    | .minus => do
      let x ← evaluate (.argument :: place) right
      pure (-x)
    | _ => .failed .missingArgument
  else evaluateOperator evaluate place op left right

/-! ### Calls -/

/-- The bounds of a sum or product: two integers in order. -/
def integerBounds (evaluate : Evaluator) (place : Place) (args : Arguments) (invalid : Failure) :
    Outcome (Int × Int) := do
  let lower ← evaluate (.lower :: place) args.lower
  let upper ← evaluate (.upper :: place) args.upper
  let a ← Outcome.ofOption invalid lower.roundedInt64?
  let b ← Outcome.ofOption invalid upper.roundedInt64?
  if b < a then .failed invalid else pure (a, b)

/-- The value of a sum or product of a function over a range of integers. -/
def evaluateRange (s : Session) (evaluate : Evaluator) (place : Place) (args : Arguments)
    (invalid : Failure) (combine : Decimal → Decimal → Except Failure Decimal) (start : Decimal) :
    Outcome Decimal := do
  let (a, b) ← integerBounds evaluate place args invalid
  let function := s.template args.function
  foldRange combine
    (fun k => evaluate (.sample k :: place) (function.render (Decimal.ofInt k)))
    (b - a + 1).toNat a start

/-- The value of an integral. -/
def evaluateIntegral (s : Session) (evaluate : Evaluator) (place : Place) (args : Arguments) :
    Outcome Decimal := do
  let lower ← evaluate (.lower :: place) args.lower
  let upper ← evaluate (.upper :: place) args.upper
  let function := s.template args.function
  (s.rule.onInterval s.divisions lower upper).total fun i x =>
    evaluate (.sample i :: place) (function.render x)

/-- The value of an aggregate. -/
def evaluateAggregate (s : Session) (evaluate : Evaluator) (place : Place) (a : Aggregate)
    (rest : Text) : Outcome Decimal :=
  if rest.length < 6 then .failed .missingArgument
  else do
    let args ← Outcome.ofOption a.invalidArguments (Arguments.ofCall? rest)
    match a with
    | .integral => evaluateIntegral s evaluate place args
    | .sum => evaluateRange s evaluate place args a.invalidArguments (fun x y => .ok (x + y)) 0
    | .product => evaluateRange s evaluate place args a.invalidArguments productOf 1

/-- A random number: below one, with all digits of the working precision, or an integer below a
bound. -/
def evaluateRand (draws : Draws) (evaluate : Evaluator) (place : Place) (rest : Text) :
    Outcome Decimal :=
  match rest with
  | [] => .failed .randArgument
  | [c] =>
    if c = ')' then
      pure ⟨(draws place % Nat.pow 10 Decimal.workingDigits : Nat), Decimal.workingDigits⟩
    else .failed .randArgument
  | _ => do
    let argument ← evaluate (.argument :: place) ('(' :: rest)
    let bound := argument.round Decimal.integralDigits
    if !bound.isInteger || !bound.isPositive then .failed .randArgument
    else
      match bound.toInt64? with
      | some n =>
        if n < 0x80000000 then pure (Decimal.ofInt (draws place % n.toNat : Nat))
        else .failed .randArgumentTooLarge
      | none => .failed .randArgumentTooLarge

/-! ### Names -/

/-- The value of a register, a constant or a literal, given in small letters. -/
def evaluateName (s : Session) (lowered : Text) : Except Failure Decimal :=
  match lowered with
  | ['a', 'n', 's'] => .ok s.answer
  | ['m', 'e', 'm'] => .ok s.memory
  | ['e'] => .ok Elementary.e
  | ['p', 'i'] => .ok Elementary.pi
  | _ =>
    if lowered = [piSymbol] then .ok Elementary.pi
    else
      match Decimal.ofText? lowered with
      | some x => .ok x
      | none => .error .unknownName

/-- The value of a text without operators outside brackets. -/
def evaluateTerm (s : Session) (draws : Draws) (evaluate : Evaluator) (place : Place) (t : Text) :
    Outcome Decimal :=
  let lowered := normalizeCase t
  match call? lowered with
  | some (.unary f, rest) =>
    if rest.length < 2 then .failed .missingArgument
    else do
      let x ← evaluate (.argument :: place) ('(' :: rest)
      .ofExcept (f.apply s.angleMode x)
  | some (.aggregate a, rest) => evaluateAggregate s evaluate place a rest
  | some (.rand, rest) => evaluateRand draws evaluate place rest
  | none => .ofExcept (evaluateName s lowered)

/-! ### Expressions -/

/-- The value of a text, given what finds the values of its parts. -/
def evaluateStep (s : Session) (draws : Draws) (evaluate : Evaluator) : Evaluator :=
  fun place t =>
    if isAllBrackets t then .failed .missingArgument
    else if !bracketsBalanced t then .failed .bracketMismatch
    else
      let inner := stripWrapping t
      match loosest? (Decimal.isLiteral inner) inner with
      | some (op, left, right) => evaluateParts evaluate place op left right
      | none => evaluateTerm s draws evaluate place inner

/-- The value of a text whose parts nest no deeper than `depth`. -/
def evaluateWithin (s : Session) (draws : Draws) : Nat → Evaluator
  | 0, _, _ => .exhausted
  | depth + 1, place, t => evaluateStep s draws (evaluateWithin s draws depth) place t

end DecimalCalculator
