import DecimalCalculator.Expression.Evaluate
import DecimalCalculator.Proofs.Decimal.Literal
import DecimalCalculator.Proofs.Expression.Scan
import DecimalCalculator.Proofs.Text.LowerCase

/-!
Expressions as trees, how they are printed, and their values.

* `Expression`: literals, names, calls of functions of one argument, negation, the binary
  operators, and brackets that are not needed.
* `Expression.print`: the text of a tree, with brackets only where the ranks of the operators call
  for them, and where the tree has them.
* `Expression.value`: the value of a tree by recursion on it. `Operator.combine`: the value of a
  binary operator, given those of its operands.
-/

namespace DecimalCalculator

/-! ### Leaves -/

/-- A decimal literal in small letters and without a sign. -/
structure UnsignedLiteral where
  text : Text
  value : Decimal
  spells : Decimal.ofText? text = some value
  unsigned : text.head? ≠ some '-' ∧ text.head? ≠ some '+'
  small : 'E' ∉ text

/-- The constants and the registers of numbers. -/
inductive Name where
  | e | pi | ans | mem
deriving DecidableEq

namespace Name

/-- The text of a name. -/
def text : Name → Text
  | e => ['e']
  | pi => ['p', 'i']
  | ans => ['a', 'n', 's']
  | mem => ['m', 'e', 'm']

/-- What a name stands for in a session. -/
def value (s : Session) : Name → Decimal
  | e => Elementary.e
  | pi => Elementary.pi
  | ans => s.answer
  | mem => s.memory

end Name

/-- A function of one argument under one of the spellings that begin a call of it. -/
structure SpelledFunction where
  spelling : Text
  function : Function
  listed : (spelling ++ ['('], Operation.unary function) ∈ operations

/-! ### Trees -/

/-- An expression. `grouped` stands for a pair of brackets that the printed text would not need. -/
inductive Expression where
  | literal (l : UnsignedLiteral)
  | name (n : Name)
  | call (f : SpelledFunction) (argument : Expression)
  | negate (e : Expression)
  | binary (op : Operator) (left right : Expression)
  | grouped (e : Expression)

namespace Operator

/-- The lowest rank of a left operand that goes without brackets. -/
def leftRank (op : Operator) : Nat := if op.groupsRight then op.rank + 1 else op.rank

/-- The lowest rank of a right operand that goes without brackets. -/
def rightRank (op : Operator) : Nat := if op.groupsRight then op.rank else op.rank + 1

/-- The value of a binary operator, given those of its operands. The divisor of a quotient or
remainder comes first, and the dividend does not matter if it is zero. -/
def combine (op : Operator) (left right : Except Failure Decimal) : Except Failure Decimal :=
  match op with
  | plus => do .ok ((← left) + (← right))
  | minus => do .ok ((← left) - (← right))
  | times => do productOf (← left) (← right)
  | divide => do
    let y ← right
    if y.isZero then .error .divisionByZero
    else do quotientOf (← left) y
  | power => do raise (← left) (← right)
  | modulo => do
    let y ← right
    if y.isZero then .error .divisionByZero
    else do
      match (← left).remainder? y with
      | some rest => .ok rest
      | none => .error .overflow

end Operator

namespace Expression

/-- How tightly a tree binds: as its operator does, negation like a difference. What has no
operator outside brackets binds more tightly than all operators. -/
def rank : Expression → Nat
  | binary op _ _ => op.rank
  | negate _ => Operator.minus.rank
  | _ => 6

/-- The printed text of a tree as an operand: in brackets if the tree binds more loosely than the
place demands. -/
def inPlace (demanded : Nat) (e : Expression) (printed : Text) : Text :=
  if e.rank < demanded then wrap printed else printed

/-- The text of a tree. -/
def print : Expression → Text
  | literal l => l.text
  | name n => n.text
  | call f x => f.spelling ++ wrap x.print
  | negate x => '-' :: x.inPlace Operator.minus.rightRank x.print
  | binary op x y => x.inPlace op.leftRank x.print ++ op.sign :: y.inPlace op.rightRank y.print
  | grouped x => wrap x.print

/-- The value of a tree in a session. -/
def value (s : Session) : Expression → Except Failure Decimal
  | literal l => .ok l.value
  | name n => .ok (n.value s)
  | call f x => do f.function.apply s.angleMode (← x.value s)
  | negate x => do .ok (-(← x.value s))
  | binary op x y => op.combine (x.value s) (y.value s)
  | grouped x => x.value s

end Expression

end DecimalCalculator
