import DecimalCalculator.Terminal.Painting

/-!
Themes: the style of each kind of output.
-/

namespace DecimalCalculator

/-- The kinds of output that a theme tells apart. -/
inductive Role where
  | plain
  /-- A computed value. -/
  | result
  /-- A failure. -/
  | error
  /-- What the user wrote. -/
  | userInput
  /-- The name of a setting or register. -/
  | settingName
deriving DecidableEq

namespace Role

/-- All roles. -/
def all : List Role := [plain, result, error, userInput, settingName]

/-- The key of the role in a theme. -/
def key : Role → String
  | plain => "plain"
  | result => "result"
  | error => "error"
  | userInput => "user_input"
  | settingName => "prop_name"

end Role

/-- The style of each kind of output. -/
structure Theme where
  plain : Style
  result : Style
  error : Style
  userInput : Style
  settingName : Style
deriving DecidableEq

namespace Theme

/-- The theme that leaves all output as it is. -/
def unstyled : Theme := ⟨.plain, .plain, .plain, .plain, .plain⟩

/-- The theme that is used where no other is chosen: bold results and input, red errors, and
names in cyan. -/
def standard : Theme where
  plain := .plain
  result := Style.plain.add .bold
  error := { Style.plain with foreground := some (.named .red) }
  userInput := Style.plain.add .bold
  settingName := { Style.plain with foreground := some (.named .cyan) }

/-- The style of a role. -/
def styleOf (t : Theme) : Role → Style
  | .plain => t.plain
  | .result => t.result
  | .error => t.error
  | .userInput => t.userInput
  | .settingName => t.settingName

/-- The theme with another style for a role. -/
def withStyle (t : Theme) (s : Style) : Role → Theme
  | .plain => { t with plain := s }
  | .result => { t with result := s }
  | .error => { t with error := s }
  | .userInput => { t with userInput := s }
  | .settingName => { t with settingName := s }

/-- Output in the styles of its roles. -/
def paint (t : Theme) (parts : List (Role × Text)) : Text :=
  paintSpans (parts.map fun part => ⟨t.styleOf part.1, part.2⟩)

end Theme

end DecimalCalculator
