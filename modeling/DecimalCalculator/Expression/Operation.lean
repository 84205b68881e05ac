import DecimalCalculator.Elementary.Hyperbolic
import DecimalCalculator.Session.Modes

/-!
The named operations of expressions.

* `Function`: the functions of one argument, and `Function.apply`, their values in an angle mode.
* `Operation`: a function, an aggregate over a range, or a random number.
* `operations`: the spellings that begin a call, in the order in which they are tried.
-/

namespace DecimalCalculator

/-! ### Functions of one argument -/

/-- The functions of one argument. -/
inductive Function where
  | sin | cos | tan | sec | csc | cot
  | exp | ln | abs
  | arcsin | arccos | arctan | arcsec | arccsc | arccot
  | sinh | cosh | tanh | sech | csch | coth
  | arcsinh | arccosh | arctanh | arcsech | arccsch | arccoth
  | sqrt
deriving DecidableEq

namespace Function

/-- All functions. -/
def all : List Function :=
  [sin, cos, tan, sec, csc, cot, exp, ln, abs, arcsin, arccos, arctan, arcsec, arccsc, arccot,
    sinh, cosh, tanh, sech, csch, coth, arcsinh, arccosh, arctanh, arcsech, arccsch, arccoth, sqrt]

/-- The name of the function. -/
def name : Function → Text
  | sin => ['s', 'i', 'n']
  | cos => ['c', 'o', 's']
  | tan => ['t', 'a', 'n']
  | sec => ['s', 'e', 'c']
  | csc => ['c', 's', 'c']
  | cot => ['c', 'o', 't']
  | exp => ['e', 'x', 'p']
  | ln => ['l', 'n']
  | abs => ['a', 'b', 's']
  | arcsin => ['a', 'r', 'c', 's', 'i', 'n']
  | arccos => ['a', 'r', 'c', 'c', 'o', 's']
  | arctan => ['a', 'r', 'c', 't', 'a', 'n']
  | arcsec => ['a', 'r', 'c', 's', 'e', 'c']
  | arccsc => ['a', 'r', 'c', 'c', 's', 'c']
  | arccot => ['a', 'r', 'c', 'c', 'o', 't']
  | sinh => ['s', 'i', 'n', 'h']
  | cosh => ['c', 'o', 's', 'h']
  | tanh => ['t', 'a', 'n', 'h']
  | sech => ['s', 'e', 'c', 'h']
  | csch => ['c', 's', 'c', 'h']
  | coth => ['c', 'o', 't', 'h']
  | arcsinh => ['a', 'r', 'c', 's', 'i', 'n', 'h']
  | arccosh => ['a', 'r', 'c', 'c', 'o', 's', 'h']
  | arctanh => ['a', 'r', 'c', 't', 'a', 'n', 'h']
  | arcsech => ['a', 'r', 'c', 's', 'e', 'c', 'h']
  | arccsch => ['a', 'r', 'c', 'c', 's', 'c', 'h']
  | arccoth => ['a', 'r', 'c', 'c', 'o', 't', 'h']
  | sqrt => ['s', 'q', 'r', 't']

/-- The spellings of the function in a call: the square root also has a symbol. -/
def spellings : Function → List Text
  | sqrt => [[rootSymbol], sqrt.name]
  | f => [f.name]

/-- The value of the function at `x`, for an angle in radians. -/
def inRadians (f : Function) (x : Decimal) : Except Failure Decimal :=
  match f with
  | sin => .ok (Elementary.sin x)
  | cos => .ok (Elementary.cos x)
  | tan => Elementary.tan x
  | sec => Elementary.sec x
  | csc => Elementary.csc x
  | cot => Elementary.cot x
  | exp => Elementary.exp x
  | ln => Elementary.ln x
  | abs => .ok x.abs
  | arcsin => Elementary.arcsin x
  | arccos => Elementary.arccos x
  | arctan => Elementary.arctan x
  | arcsec => Elementary.arcsec x
  | arccsc => Elementary.arccsc x
  | arccot => Elementary.arccot x
  | sinh => Elementary.sinh x
  | cosh => Elementary.cosh x
  | tanh => Elementary.tanh x
  | sech => Elementary.sech x
  | csch => Elementary.csch x
  | coth => Elementary.coth x
  | arcsinh => Elementary.arcsinh x
  | arccosh => Elementary.arccosh x
  | arctanh => Elementary.arctanh x
  | arcsech => Elementary.arcsech x
  | arccsch => Elementary.arccsch x
  | arccoth => Elementary.arccoth x
  | sqrt => Elementary.sqrt x

/-- Whether the function takes an angle. -/
def takesAngle : Function → Bool
  | sin | cos | tan | sec | csc | cot => true
  | _ => false

/-- Whether the function gives an angle. -/
def givesAngle : Function → Bool
  | arcsin | arccos | arctan | arcsec | arccsc | arccot => true
  | _ => false

/-- The value of the function at `x`, with angles in the unit of the mode. The inverse
cotangent of zero in degrees is exactly a right angle. -/
def apply (f : Function) (mode : AngleMode) (x : Decimal) : Except Failure Decimal :=
  match mode with
  | .radians => f.inRadians x
  | .degrees =>
    if f = arccot then Elementary.arccotDegrees x
    else if f.takesAngle then f.inRadians (Elementary.toRadians x)
    else if f.givesAngle then (f.inRadians x).map Elementary.toDegrees
    else f.inRadians x

end Function

/-! ### Aggregates -/

/-- The operations that evaluate a function of `x` over a range. -/
inductive Aggregate where
  | integral | sum | product
deriving DecidableEq

namespace Aggregate

/-- All aggregates. -/
def all : List Aggregate := [integral, sum, product]

/-- The name of the aggregate. -/
def name : Aggregate → Text
  | integral => ['i', 'n', 't', 'e', 'g', 'r', 'a', 'l']
  | sum => ['s', 'u', 'm']
  | product => ['p', 'r', 'o', 'd', 'u', 'c', 't']

/-- The symbol of the aggregate. -/
def symbol : Aggregate → Char
  | integral => integralSymbol
  | sum => sumSymbol
  | product => productSymbol

/-- The spellings of the aggregate in a call. -/
def spellings (a : Aggregate) : List Text := [[a.symbol], a.name]

/-- The failure for arguments that the aggregate does not take. -/
def invalidArguments : Aggregate → Failure
  | integral => .integralArguments
  | sum => .sumArguments
  | product => .productArguments

end Aggregate

/-! ### Calls -/

/-- What a call may name. -/
inductive Operation where
  | unary (f : Function)
  | aggregate (a : Aggregate)
  | rand
deriving DecidableEq

/-- The texts that begin a call, each with its opening bracket, and what they name. -/
def operations : List (Text × Operation) :=
  let calls (spellings : List Text) (operation : Operation) : List (Text × Operation) :=
    spellings.map fun spelling => (spelling ++ ['('], operation)
  Function.all.flatMap (fun f => calls f.spellings (.unary f)) ++
    Aggregate.all.flatMap (fun a => calls a.spellings (.aggregate a)) ++
    calls [['r', 'a', 'n', 'd']] .rand

/-- The operation whose call begins a text, and what follows its opening bracket. -/
def call? (t : Text) : Option (Operation × Text) :=
  operations.findSome? fun entry => (dropStart? entry.1 t).map fun rest => (entry.2, rest)

end DecimalCalculator
