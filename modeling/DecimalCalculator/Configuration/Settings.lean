import DecimalCalculator.Configuration.Document
import DecimalCalculator.Console.Display
import DecimalCalculator.Console.Theme
import DecimalCalculator.Session.State

/-!
The configuration: what a session starts with, how results are shown, and in which colors.

* `Configuration.ofText?`: reads a configuration. Every key has a default; unknown keys and
  values out of range are refused. A table may also be written as an array of its first
  fields.
* `Configuration.theme`: the theme to use, which depends on whether colors are wanted.
-/

namespace DecimalCalculator

/-- A configuration. -/
structure Configuration where
  /-- What an interactive session writes before each line. -/
  prompt : Text
  angleMode : AngleMode
  rule : QuadratureRule
  divisions : Divisions
  display : Display
  /-- Whether output is colored, if this is set at all. -/
  colors : Option Bool
  themeName : Text
  themes : List (Text × Theme)

namespace Configuration

/-- The configuration of an empty document. -/
def standard : Configuration where
  prompt := text "> "
  angleMode := Session.fresh.angleMode
  rule := Session.fresh.rule
  divisions := Session.fresh.divisions
  display := .standard
  colors := none
  themeName := text "default"
  themes := []

/-! ### Values of the right kind -/

/-- The mode of a list with exactly the name `t`. -/
def named? {α : Type} (modes : List α) (name : α → String) (t : Text) : Option α :=
  modes.find? fun mode => text (name mode) = t

/-- The mode that a value names: as a string, or as the one key of a table in braces that opens
an empty table. -/
def mode? {α : Type} (modes : List α) (name : α → String) : Document.Value → Option α
  | .string t => named? modes name t
  | .table true [(t, .table _ [])] => named? modes name t
  | _ => none

/-- The fields of a table, none of them repeated. An array stands for the fields that come first
in the order of `names`. -/
def fields? (names : List String) : Document.Value → Option Document.Members
  | .table _ members =>
    let keys := members.map (·.1)
    if keys.eraseDups.length = keys.length then some members else none
  | .array items =>
    if items.length ≤ names.length then some ((names.map text).zip items) else none
  | _ => none

/-- What the fields of a table make of a starting value, one after the other. -/
def readFields {α : Type} (names : List String) (set : α → String → Document.Value → Option α)
    (start : α) (value : Document.Value) : Option α := do
  (← fields? names value).foldlM (fun a field => set a (String.ofList field.1) field.2) start

/-! ### Reading -/

/-- The configuration with a field of `calc`. -/
def setCalc (c : Configuration) : String → Document.Value → Option Configuration
  | "prompt", .string t => some { c with prompt := t }
  | _, _ => none

/-- The configuration with a field of `session`. -/
def setSession (c : Configuration) : String → Document.Value → Option Configuration
  | "angle_mode", value =>
    (mode? AngleMode.all AngleMode.name value).map fun mode => { c with angleMode := mode }
  | "integral_mode", value =>
    (mode? QuadratureRule.all QuadratureRule.name value).map fun rule => { c with rule := rule }
  | "divisions", .integer n =>
    (Divisions.ofNat? n.toNat).map fun divisions => { c with divisions := divisions }
  | _, _ => none

/-- The configuration with a field of `display`. -/
def setDisplay (c : Configuration) : String → Document.Value → Option Configuration
  | "digits", .integer n =>
    if n < 0 then none else some { c with display := { c.display with digits := n.toNat } }
  | "notation", value =>
    (mode? ExponentForm.all ExponentForm.name value).map fun form =>
      { c with display := { c.display with form := form } }
  | _, _ => none

/-- The configuration with a field of `colors`. -/
def setColors (c : Configuration) : String → Document.Value → Option Configuration
  | "enabled", .boolean b => some { c with colors := some b }
  | "theme", .string t => some { c with themeName := t }
  | _, _ => none

/-- The theme with the style of a role. -/
def setStyle (theme : Theme) (key : String) : Document.Value → Option Theme
  | .string description => do
    let role ← Role.all.find? fun role => role.key = key
    let style ← (Style.ofText description).toOption
    some (theme.withStyle style role)
  | _ => none

/-- The configuration with a theme, in place of any other of the name. -/
def setTheme (c : Configuration) (name : Text) (value : Document.Value) : Option Configuration := do
  let theme ← readFields (Role.all.map Role.key) setStyle .unstyled value
  some { c with themes := c.themes.filter (fun entry => entry.1 ≠ name) ++ [(name, theme)] }

/-- The configuration with the themes of a table. -/
def setThemes (c : Configuration) : Document.Value → Option Configuration
  | .table _ members => members.foldlM (fun c member => c.setTheme member.1 member.2) c
  | _ => none

/-- The configuration with a table of the document. -/
def setTable (c : Configuration) (key : String) (value : Document.Value) : Option Configuration :=
  match key with
  | "calc" => readFields ["prompt"] setCalc c value
  | "session" => readFields ["angle_mode", "integral_mode", "divisions"] setSession c value
  | "display" => readFields ["digits", "notation"] setDisplay c value
  | "colors" => readFields ["enabled", "theme"] setColors c value
  | "themes" => c.setThemes value
  | _ => none

/-- The configuration with the mode that a header alone chooses: the header leads through the
field of the mode, and its last part is the name. -/
def setHeader (c : Configuration) (path : Document.KeyPath) : Option Configuration := do
  let chosen : Document.Value := .string (path.getLast?.getD [])
  match path.map String.ofList with
  | table :: field :: _ :: _ =>
    if (table, field) ∈ [("session", "angle_mode"), ("session", "integral_mode"),
      ("display", "notation")]
    then c.setTable table (.table false [(text field, chosen)])
    else none
  | _ => none

/-- The configuration that a document holds. -/
def ofDocument? (doc : Document) : Option Configuration :=
  match (doc.onlyHeader?).bind standard.setHeader with
  | some c => some c
  | none => do
    readFields [] setTable standard (.table false (← doc.members))

/-- Reads a configuration. -/
def ofText? (t : Text) : Option Configuration := (Document.ofText? t).bind ofDocument?

/-! ### Using -/

/-- The theme to use: none of its own without colors, else the one that is named, if there
is one of the name. Colors are on where the configuration leaves them open, unless `noColor`
holds. -/
def theme (c : Configuration) (noColor : Bool) : Theme :=
  if c.colors.getD !noColor then
    match c.themes.find? fun entry => entry.1 = c.themeName with
    | some entry => entry.2
    | none => .standard
  else .unstyled

/-- A new session with the configured modes. -/
def session (c : Configuration) : Session :=
  { Session.fresh with angleMode := c.angleMode, rule := c.rule, divisions := c.divisions }

end Configuration

end DecimalCalculator
