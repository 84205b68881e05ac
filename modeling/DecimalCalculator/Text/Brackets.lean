import DecimalCalculator.Text.Characters

/-!
Round brackets in a text.

* `bracketsBalanced`: every closing bracket closes an earlier one, and none stays open.
* `stripWrapping`: the text without the bracket pairs that wrap all of it.
-/

namespace DecimalCalculator

/-- Whether the brackets of a text, after `depth` open ones, close in order and all of them. -/
def closes : Nat → Text → Bool
  | depth, [] => depth = 0
  | depth, '(' :: rest => closes (depth + 1) rest
  | 0, ')' :: _ => false
  | depth + 1, ')' :: rest => closes depth rest
  | depth, _ :: rest => closes depth rest

/-- Whether the count of opening less closing brackets never falls below zero and ends there. -/
def bracketsBalanced (t : Text) : Bool := closes 0 t

/-- Whether a text holds nothing but brackets. The empty text does. -/
def isAllBrackets (t : Text) : Bool := t.all isBracket

/-- The text between a first opening and a last closing bracket. -/
def unwrap? : Text → Option Text
  | '(' :: rest => if rest.getLast? = some ')' then some rest.dropLast else none
  | _ => none

/-- Takes off at most `bound` pairs of outer brackets, as long as what remains is balanced. -/
def stripWrappingWithin : Nat → Text → Text
  | 0, t => t
  | bound + 1, t =>
    match unwrap? t with
    | some inner => if bracketsBalanced inner then stripWrappingWithin bound inner else t
    | none => t

/-- The text without its outer bracket pairs, taken off as long as what remains is balanced:
from `((a+b))` they go, while `(a)+(b)` stays as it is. A pair takes two characters, so the
length of the text bounds their number. -/
def stripWrapping (t : Text) : Text := stripWrappingWithin t.length t

end DecimalCalculator
