import DecimalCalculator.Decimal.Rendering
import DecimalCalculator.Session.Modes

/-!
How results are shown: their digits, and the form of their exponents. Evaluation itself
always runs at the working precision.
-/

namespace DecimalCalculator

/-! ### Exponents -/

/-- The form in which large and small numbers are shown. -/
inductive ExponentForm where
  | scientific
  | engineering
deriving DecidableEq

namespace ExponentForm

/-- Both forms. -/
def all : List ExponentForm := [scientific, engineering]

/-- The name of the form. -/
def name : ExponentForm → String
  | scientific => "scientific"
  | engineering => "engineering"

/-- The form with a full or short name. -/
def ofName (t : Text) : Except Failure ExponentForm :=
  match nameKey t with
  | "scientific" | "sci" => .ok scientific
  | "engineering" | "eng" => .ok engineering
  | _ => .error .invalidMode

/-- A number in the form. -/
def write : ExponentForm → Decimal → Text
  | scientific => Decimal.scientific
  | engineering => Decimal.engineering

end ExponentForm

/-! ### Digits -/

/-- How results are shown. The digits are kept as they were set, in range or not. -/
structure Display where
  digits : Nat
  form : ExponentForm
deriving DecidableEq

namespace Display

/-- The most digits that still mean something. -/
def maxDigits : Nat := Decimal.workingDigits

/-- Six digits in scientific form. -/
def standard : Display := ⟨6, .scientific⟩

/-- The digits to show, brought into range. -/
def shownDigits (d : Display) : Nat := min (max d.digits 1) maxDigits

/-- The number of digits that a text spells, if it is in range. -/
def readDigits (t : Text) : Except Failure Nat :=
  match natural? (trim t) with
  | some n => if 1 ≤ n ∧ n ≤ maxDigits then .ok n else .error .invalidMode
  | none => .error .invalidMode

/-- A value as it is shown. -/
def write (d : Display) (x : Decimal) : Text := d.form.write (x.round d.shownDigits)

end Display

end DecimalCalculator
