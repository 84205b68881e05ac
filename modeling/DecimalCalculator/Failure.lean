import DecimalCalculator.Text.Characters

/-!
The causes for which an evaluation or a command fails, and their wording.
-/

namespace DecimalCalculator

/-- Why an evaluation or a command fails. -/
inductive Failure where
  | divisionByZero
  | tanUndefined
  | secUndefined
  | cscUndefined
  | cotUndefined
  | lnUndefined
  | arcsinUndefined
  | arccosUndefined
  | arcsecUndefined
  | arccscUndefined
  | cschUndefined
  | cothUndefined
  | arccoshUndefined
  | arctanhUndefined
  | arcsechUndefined
  | arccschUndefined
  | arccothUndefined
  | fractionalPowerOfNegative
  | unknownName
  | missingArgument
  | bracketMismatch
  | invalidMode
  | integralArguments
  | sumArguments
  | productArguments
  | randArgument
  | randArgumentTooLarge
  | overflow
  /-- A divisor inside an elementary function has become zero. This is not reported as the
  others are: the program breaks off. -/
  | aborted
  /-- A sum of scales does not fit in 64 bits. The program breaks off. -/
  | scaleSum
  /-- A difference of scales does not fit in 64 bits. The program breaks off. -/
  | scaleDifference
deriving DecidableEq

namespace Failure

/-- All failures that are reported. -/
def all : List Failure :=
  [divisionByZero, tanUndefined, secUndefined, cscUndefined, cotUndefined, lnUndefined,
    arcsinUndefined, arccosUndefined, arcsecUndefined, arccscUndefined, cschUndefined,
    cothUndefined, arccoshUndefined, arctanhUndefined, arcsechUndefined,
    arccschUndefined, arccothUndefined, fractionalPowerOfNegative, unknownName, missingArgument,
    bracketMismatch, invalidMode, integralArguments, sumArguments,
    productArguments, randArgument, randArgumentTooLarge, overflow]

/-- Whether the program breaks off instead of reporting the failure. -/
def breaksOff : Failure → Bool
  | aborted | scaleSum | scaleDifference => true
  | _ => false

/-- The name under which a failure is recorded. -/
def name : Failure → String
  | divisionByZero => "divisionByZero"
  | tanUndefined => "tanUndef"
  | secUndefined => "secUndef"
  | cscUndefined => "cscUndef"
  | cotUndefined => "cotUndef"
  | lnUndefined => "lnUndef"
  | arcsinUndefined => "arcsinUndef"
  | arccosUndefined => "arccosUndef"
  | arcsecUndefined => "arcsecUndef"
  | arccscUndefined => "arccscUndef"
  | cschUndefined => "cschUndef"
  | cothUndefined => "cothUndef"
  | arccoshUndefined => "arccoshUndef"
  | arctanhUndefined => "arctanhUndef"
  | arcsechUndefined => "arcsechUndef"
  | arccschUndefined => "arccschUndef"
  | arccothUndefined => "arccothUndef"
  | fractionalPowerOfNegative => "nonIntegralPowerNegativeArg"
  | unknownName => "functionUndef"
  | missingArgument => "missingArg"
  | bracketMismatch => "bracketMismatch"
  | invalidMode => "invalidMode"
  | integralArguments => "invalidIntegralParameters"
  | sumArguments => "invalidSumParameters"
  | productArguments => "invalidProductParameters"
  | randArgument => "invalidRandParameters"
  | randArgumentTooLarge => "randArgumentTooBig"
  | overflow => "overflow"
  | aborted => "aborted"
  | scaleSum => "scaleSum"
  | scaleDifference => "scaleDifference"

/-- The failure recorded under a name. -/
def ofName? (s : String) : Option Failure := all.find? fun f => f.name = s

/-- What the user is told. -/
def message : Failure → String
  | divisionByZero => "Division by 0."
  | tanUndefined => "Tangent undefined."
  | secUndefined => "Secant undefined."
  | cscUndefined => "Cosecant undefined."
  | cotUndefined => "Cotangent undefined."
  | lnUndefined => "Ln undefined."
  | arcsinUndefined => "Arcsin undefined."
  | arccosUndefined => "Arccos undefined."
  | arcsecUndefined => "Arcsec undefined."
  | arccscUndefined => "Arccsc undefined."
  | cschUndefined => "Csch undefined."
  | cothUndefined => "Coth undefined."
  | arccoshUndefined => "Arccosh undefined."
  | arctanhUndefined => "Arctanh undefined."
  | arcsechUndefined => "Arcsech undefined."
  | arccschUndefined => "Arccsch undefined."
  | arccothUndefined => "Arccoth undefined."
  | fractionalPowerOfNegative => "Negative number to non-integral power."
  | unknownName => "Function undefined."
  | missingArgument => "Missing argument."
  | bracketMismatch => "Bracket mismatch."
  | invalidMode => "Invalid mode."
  | integralArguments => "Invalid integral arguments."
  | sumArguments => "Invalid sum arguments."
  | productArguments => "Invalid product arguments."
  | randArgument => "Invalid rand argument."
  | randArgumentTooLarge => "Rand argument too big."
  | overflow => "Overflow."
  | aborted => "attempt to divide by zero"
  | scaleSum => "attempt to add with overflow"
  | scaleDifference => "attempt to subtract with overflow"

/-- The line that reports a problem. -/
def reportOf (message : Text) : Text := text "Error. " ++ message

/-- The line that reports a failure. -/
def report (f : Failure) : Text := reportOf (text f.message)

end Failure

end DecimalCalculator
