import DecimalCalculator.Text.Brackets
import DecimalCalculator.Text.ExponentSign

/-!
Where an expression divides: the binary operators outside all brackets.

* `Operator`: the binary operators, from the one that binds loosest to the one that binds
  tightest.
* `Operator.split?`: the two parts around the leftmost or rightmost occurrence of an
  operator outside brackets.
* `loosest?`: the operator at which an expression divides, and the two parts.
-/

namespace DecimalCalculator

/-! ### Scanning outside brackets -/

/-- Reads a text up to the first character at bracket depth zero that `stops` accepts, given
what has been passed, read backward, and what lies ahead. The result is what has been
passed, still backward, and what lies ahead. A text that is read backward has its opening
and closing brackets exchanged. -/
def scan (opening closing : Char) (stops : Text → Char → Text → Bool) :
    Text → Int → Text → Option (Text × Text)
  | _, _, [] => none
  | passed, depth, c :: ahead =>
    if c = opening then scan opening closing stops (c :: passed) (depth + 1) ahead
    else if c = closing then scan opening closing stops (c :: passed) (depth - 1) ahead
    else if depth = 0 ∧ stops passed c ahead then some (passed, ahead)
    else scan opening closing stops (c :: passed) depth ahead

/-- The parts of a text before and after its first character outside brackets that `stops`
accepts, given what stands before it, read backward, and after it. -/
def splitFirst (stops : Text → Char → Text → Bool) (t : Text) : Option (Text × Text) :=
  (scan '(' ')' stops [] 0 t).map fun (passed, ahead) => (passed.reverse, ahead)

/-- The parts of a text before and after its last character outside brackets that `stops`
accepts. -/
def splitLast (stops : Text → Char → Text → Bool) (t : Text) : Option (Text × Text) :=
  (scan ')' '(' (fun passed c ahead => stops ahead c passed) [] 0 t.reverse).map
    fun (passed, ahead) => (ahead.reverse, passed)

/-! ### Operators -/

/-- The binary operators. -/
inductive Operator where
  | plus | minus | times | divide | power | modulo
deriving DecidableEq

namespace Operator

/-- The operators, the one that binds loosest first. -/
def loosestFirst : List Operator := [plus, minus, times, divide, power, modulo]

/-- The sign of the operator. -/
def sign : Operator → Char
  | plus => '+'
  | minus => '-'
  | times => '*'
  | divide => '/'
  | power => '^'
  | modulo => '%'

/-- Whether an expression divides at the leftmost occurrence of the operator, so that the operator
groups to the right; the others group to the left. -/
def groupsRight : Operator → Bool
  | plus | times => true
  | _ => false

/-- Whether the sign of the operator may also be that of an exponent. -/
def mayBeExponentSign : Operator → Bool
  | plus | minus => true
  | _ => false

/-- Whether the character `c` between `before`, read backward, and `after` is the operator,
and not the sign of an exponent. -/
def isAt (op : Operator) (before : Text) (c : Char) (after : Text) : Bool :=
  c = op.sign && !(op.mayBeExponentSign && betweenIsExponent before after)

/-- The two parts of a text around the occurrence of the operator at which it divides. -/
def split? (op : Operator) (t : Text) : Option (Text × Text) :=
  if op.groupsRight then splitFirst op.isAt t else splitLast op.isAt t

end Operator

/-- The operator at which an expression divides, and the two parts around it. The signs of a
literal are no operators. -/
def loosest? (isLiteral : Bool) (t : Text) : Option (Operator × Text × Text) :=
  Operator.loosestFirst.findSome? fun op =>
    if isLiteral && op.mayBeExponentSign then none
    else (op.split? t).map fun parts => (op, parts)

end DecimalCalculator
