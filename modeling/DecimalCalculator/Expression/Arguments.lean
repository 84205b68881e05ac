import DecimalCalculator.Expression.Operation

/-!
The three arguments of an aggregate, divided at the commas outside brackets.

* `commaPieces`: what stands between the commas of a call.
* `Arguments.ofCall?`: a call with exactly two such commas.
-/

namespace DecimalCalculator

/-- What stands in a text before its first comma at bracket depth zero, and the parts after
each such comma, with `depth` brackets open. -/
def commaPieces : Int → Text → Text × List Text
  | _, [] => ([], [])
  | depth, c :: rest =>
    if c = ',' ∧ depth = 0 then
      let (first, others) := commaPieces depth rest
      ([], first :: others)
    else
      let (first, others) :=
        commaPieces (if c = '(' then depth + 1 else if c = ')' then depth - 1 else depth) rest
      (c :: first, others)

/-- The arguments of an aggregate: a function of the variable, in brackets, and the bounds of its
range. -/
structure Arguments where
  function : Text
  lower : Text
  upper : Text
deriving DecidableEq

namespace Arguments

/-- The arguments in what follows the opening bracket of a call. The upper bound leaves out
the last character, which closes the call. -/
def ofCall? (rest : Text) : Option Arguments :=
  match commaPieces 0 rest with
  | (function, [lower, upper]) =>
    if upper.isEmpty then none
    else some ⟨'(' :: (function ++ [')']), lower, upper.dropLast⟩
  | _ => none

end Arguments

end DecimalCalculator
