import DecimalCalculator.Configuration.Settings
import DecimalCalculator.Session.Evaluation

/-!
The lines that a user enters: expressions to evaluate, and commands that begin with a colon.

* `Console`: a session with its display and theme.
* `Console.reply`: what a line comes to, and the console after it.
* `Console.execute`: the same with the reply painted. `Console.echo` repeats a line before
  its reply.
-/

namespace DecimalCalculator

/-! ### Settings and commands -/

/-- What a console can show of itself. -/
inductive Setting where
  | angleMode | rule | divisions | digits | form | answer | memory | functionAnswer | functionMemory
deriving DecidableEq

namespace Setting

/-- All settings, in the order in which they are shown. -/
def all : List Setting :=
  [angleMode, rule, divisions, digits, form, answer, memory, functionAnswer, functionMemory]

/-- The name of the setting. -/
def name : Setting → String
  | angleMode => "angle_mode"
  | rule => "integral_mode"
  | divisions => "divisions"
  | digits => "digits"
  | form => "notation"
  | answer => "ans"
  | memory => "mem"
  | functionAnswer => "fans"
  | functionMemory => "fmem"

end Setting

/-- The commands. -/
inductive Command where
  | mode | integral | divisions | store | storeFunction | answerFunction | digits | form | showAll
deriving DecidableEq

namespace Command

/-- All commands. -/
def all : List Command :=
  [mode, integral, divisions, store, storeFunction, answerFunction, digits, form, showAll]

/-- The word that follows the colon. -/
def name : Command → String
  | mode => "mode"
  | integral => "integral"
  | divisions => "divisions"
  | store => "sto"
  | storeFunction => "fsto"
  | answerFunction => "fans"
  | digits => "digits"
  | form => "notation"
  | showAll => "show"

/-- The command of a name. -/
def ofName? (t : Text) : Option Command := all.find? fun c => text c.name = t

end Command

/-! ### Consoles -/

/-- A session, how its results are shown, and in which styles. -/
structure Console where
  session : Session
  display : Display
  theme : Theme
deriving DecidableEq

/-- What a line comes to. -/
inductive Reply where
  | value (x : Decimal)
  | failed (f : Failure)
  /-- Settings, each with what it shows. -/
  | settings (shown : List (Setting × Text))
  | nothing
deriving DecidableEq

namespace Reply

/-- Whether the line failed. -/
def isFailure : Reply → Bool
  | failed _ => true
  | _ => false

/-- Whether the line broke the program off, which then answers nothing more. -/
def isAbort : Reply → Bool
  | failed f => f.breaksOff
  | _ => false

end Reply

namespace Console

/-- A console as configured. -/
def ofConfiguration (c : Configuration) (noColor : Bool) : Console :=
  ⟨c.session, c.display, c.theme noColor⟩

/-- A text in quotation marks. -/
def quoted (t : Text) : Text := '"' :: (t ++ ['"'])

/-- What a setting shows. -/
def shown (c : Console) : Setting → Text
  | .angleMode => text c.session.angleMode.name
  | .rule => text c.session.rule.name
  | .divisions => digitsOf c.session.divisions.count
  | .digits => digitsOf c.display.digits
  | .form => text c.display.form.name
  | .answer => c.display.write c.session.answer
  | .memory => c.display.write c.session.memory
  | .functionAnswer => quoted c.session.functionAnswer
  | .functionMemory => quoted c.session.functionMemory

/-! ### Commands -/

/-- Carries out a command with its argument. The result also names the settings to show. -/
def command (c : Console) (name : Command) (argument : Text) :
    Except Failure (Console × List Setting) :=
  match name with
  | .mode => do
    let mode ← AngleMode.ofName argument
    .ok ({ c with session := { c.session with angleMode := mode } }, [.angleMode])
  | .integral => do
    let rule ← QuadratureRule.ofName argument
    .ok ({ c with session := { c.session with rule := rule } }, [.rule])
  | .divisions => do
    let divisions ← Divisions.ofText argument
    .ok ({ c with session := { c.session with divisions := divisions } }, [.divisions])
  | .store =>
    .ok ({ c with session := { c.session with memory := c.session.answer } }, [.memory])
  | .storeFunction =>
    if argument.isEmpty then .error .missingArgument
    else
      .ok ({ c with session := { c.session with functionMemory := preprocess argument } },
        [.functionMemory])
  | .answerFunction =>
    if argument.isEmpty then .error .missingArgument
    else
      .ok ({ c with session := { c.session with functionAnswer := preprocess argument } },
        [.functionAnswer])
  | .digits => do
    let digits ← Display.readDigits argument
    .ok ({ c with display := { c.display with digits := digits } }, [.digits])
  | .form => do
    let form ← ExponentForm.ofName argument
    .ok ({ c with display := { c.display with form := form } }, [.form])
  | .showAll => .ok (c, Setting.all)

/-- Carries out what follows the colon of a line: a command name up to the first blank, and an
argument. -/
def runCommand (c : Console) (line : Text) : Except Failure (Console × List Setting) :=
  let name := line.takeWhile fun ch => !isBlank ch
  let argument := trim (line.dropWhile fun ch => !isBlank ch)
  match Command.ofName? name with
  | some command => c.command command argument
  | none => .error .unknownName

/-! ### Lines -/

/-- What a line comes to. A line that fails changes nothing. -/
def reply (c : Console) (draws : Draws) (line : Text) : Reply × Console :=
  match trim line with
  | [] => (.nothing, c)
  | ':' :: rest =>
    match c.runCommand rest with
    | .ok (c, settings) => (.settings (settings.map fun s => (s, c.shown s)), c)
    | .error f => (.failed f, c)
  | expression =>
    match c.session.evaluateLine draws expression with
    | (.ok x, session) => (.value x, { c with session := session })
    | (.error f, _) => (.failed f, c)

/-- The output for a reply, if there is any. -/
def write (c : Console) : Reply → Option Text
  | .value x => some (c.theme.paint [(.result, c.display.write x)])
  | .failed f => if f.breaksOff then none else some (c.theme.paint [(.error, f.report)])
  | .settings shown =>
    let lines := shown.map fun (setting, value) =>
      [(Role.settingName, text setting.name), (Role.plain, text " = "), (Role.plain, value)]
    some (c.theme.paint ((lines.intersperse [(Role.plain, ['\n'])]).flatten))
  | .nothing => none

/-- The line for a problem outside evaluation. -/
def problem (c : Console) (message : Text) : Text :=
  c.theme.paint [(.error, Failure.reportOf message)]

/-- A line of input, as it is repeated before its reply. -/
def echo (c : Console) (line : Text) : Text :=
  c.theme.paint [(.plain, text "> "), (.userInput, line)]

/-- What a line produces: its output, if any, whether it failed, whether it broke the program
off, and the console after it. -/
structure Execution where
  output : Option Text
  hasFailed : Bool
  isAborted : Bool
  console : Console

/-- Runs a line. -/
def execute (c : Console) (draws : Draws) (line : Text) : Execution :=
  let (reply, c) := c.reply draws line
  ⟨c.write reply, reply.isFailure, reply.isAbort, c⟩

end Console

end DecimalCalculator
