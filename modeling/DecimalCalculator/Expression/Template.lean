import DecimalCalculator.Decimal.Rendering
import DecimalCalculator.Session.State
import DecimalCalculator.Text.LowerCase

/-!
The function of an aggregate: a text with slots for the variable.

* `Template`: the runs of text between the slots. `Template.render` fills every slot with a
  bracketed numeral.
* `Session.expand`: a text with the function registers in place of their names.
-/

namespace DecimalCalculator

/-! ### Slots -/

/-- A run of text, or a slot for the variable. -/
inductive Segment where
  | literal (t : Text)
  | slot
deriving DecidableEq

/-- A function of the variable, as text with slots. -/
structure Template where
  segments : List Segment
deriving DecidableEq

namespace Template

/-- Puts one character in front of segments, into their first run of text if they begin with
one. -/
def consLiteral (c : Char) : List Segment → List Segment
  | .literal t :: rest => .literal (c :: t) :: rest
  | segments => .literal [c] :: segments

/-- The template in which every variable of a text has become a slot. -/
def ofText (t : Text) : Template where
  segments := t.foldr (fun c segments =>
    if c = variableLetter then .slot :: segments else consLiteral c segments) []

/-- Whether there is a slot. -/
def hasVariable (f : Template) : Bool := f.segments.contains .slot

/-- A number as it fills a slot: without exponent, in brackets. -/
def numeral (x : Decimal) : Text := '(' :: (x.plain ++ [')'])

/-- The text with a number in every slot. -/
def render (f : Template) (x : Decimal) : Text :=
  let filled := numeral x
  f.segments.flatMap fun segment =>
    match segment with
    | .literal t => t
    | .slot => filled

end Template

/-! ### Function registers -/

namespace Session

/-- Puts the texts of the function registers in place of the names `fans` and `fmem`. The
texts are not searched for names again. -/
def fillRegisters (s : Session) : Text → Text
  | 'f' :: 'a' :: 'n' :: 's' :: rest => s.functionAnswer ++ fillRegisters s rest
  | 'f' :: 'm' :: 'e' :: 'm' :: rest => s.functionMemory ++ fillRegisters s rest
  | c :: rest => c :: fillRegisters s rest
  | [] => []

/-- A function text in small letters, with the function registers in place of their names. -/
def expand (s : Session) (t : Text) : Text := normalizeCase (s.fillRegisters (normalizeCase t))

/-- The template of a function text in a session. -/
def template (s : Session) (t : Text) : Template := Template.ofText (s.expand t)

end Session

end DecimalCalculator
