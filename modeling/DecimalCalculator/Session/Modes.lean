import DecimalCalculator.Failure

/-!
The modes of a session and the names they go by. A name is read without the blanks around it and
without regard to ASCII case.
-/

namespace DecimalCalculator

/-- The key under which a name is looked up. -/
def nameKey (t : Text) : String := String.ofList (lowerAscii (trim t))

/-! ### Angles -/

/-- The unit in which the circular functions take and give angles. -/
inductive AngleMode where
  | radians
  | degrees
deriving DecidableEq

namespace AngleMode

/-- Both units. -/
def all : List AngleMode := [radians, degrees]

/-- The name of the unit. -/
def name : AngleMode → String
  | radians => "radians"
  | degrees => "degrees"

/-- The unit with a full or short name. -/
def ofName (t : Text) : Except Failure AngleMode :=
  match nameKey t with
  | "radians" | "rad" => .ok radians
  | "degrees" | "deg" => .ok degrees
  | _ => .error .invalidMode

end AngleMode

/-! ### Quadrature rules -/

/-- The rule by which an integral is approximated. -/
inductive QuadratureRule where
  /-- The right end of each panel. -/
  | rectangle
  /-- The middle of each panel. -/
  | midpoint
  /-- Both ends of each panel. -/
  | trapezoid
  /-- Simpson's rule, over twice as many panels. -/
  | simpson
  /-- Simpson's three-eighths rule, over three times as many panels. -/
  | simpson38
deriving DecidableEq

namespace QuadratureRule

/-- All rules. -/
def all : List QuadratureRule := [rectangle, midpoint, trapezoid, simpson, simpson38]

/-- The name of the rule. -/
def name : QuadratureRule → String
  | rectangle => "rectangle"
  | midpoint => "midpoint"
  | trapezoid => "trapezoid"
  | simpson => "simpson"
  | simpson38 => "simpson38"

/-- The rule with a full or short name. -/
def ofName (t : Text) : Except Failure QuadratureRule :=
  match nameKey t with
  | "rectangle" | "rect" => .ok rectangle
  | "midpoint" | "mid" => .ok midpoint
  | "trapezoid" | "trap" => .ok trapezoid
  | "simpson" | "simpson13" | "simpson-1/3" => .ok simpson
  | "simpson38" | "simpson-3/8" => .ok simpson38
  | _ => .error .invalidMode

end QuadratureRule

/-! ### Divisions -/

/-- The number of panels that a quadrature rule starts from: positive, and of 32 bits. -/
structure Divisions where
  count : Nat
  count_pos : 0 < count
  count_lt : count < 0x100000000
deriving DecidableEq

namespace Divisions

/-- The number of panels of a new session. -/
def standard : Divisions := ⟨1000, by decide, by decide⟩

/-- A number of panels, if it is in range. -/
def ofNat? (n : Nat) : Option Divisions :=
  if h : 0 < n ∧ n < 0x100000000 then some ⟨n, h.1, h.2⟩ else none

/-- The number of panels that digits spell. -/
def ofText (t : Text) : Except Failure Divisions :=
  match (natural? t).bind ofNat? with
  | some d => .ok d
  | none => .error .invalidMode

end Divisions

end DecimalCalculator
