import DecimalCalculator.CommandLine.Options
import DecimalCalculator.Console.Command

/-!
What the program answers on a command line.

* `Console.runScript`, `Console.runExpressions`, `Console.runDialogue`: the three ways to go
  through lines.
* `Options.start`: the configuration that a file and the options give.
* `respond`: the answer to a command line, given what the files hold that it names.
-/

namespace DecimalCalculator

/-! ### Fixed texts -/

/-- The version of the program. -/
def version : String := "0.1.0"

/-- What the program says of its version. -/
def versionLine : String := "Decicalc " ++ version

/-- What the program says of its options. -/
def usage : List String :=
  ["Decimal calculator with integrals, sums and products",
    "",
    "Usage: decicalc [OPTIONS] [EXPR]...",
    "",
    "Arguments:",
    "  [EXPR]...  Evaluate a list of expressions. If no arguments are provided, an " ++
      "interactive session will start.",
    "",
    "Options:",
    "  -f, --file <file>      Reads expressions from a file, or stdin when given `-`",
    "      --config-path      Prints a path to the config file, then exits",
    "  -c, --config <config>  Set path to config.toml",
    "  -d, --degrees          Evaluate trigonometric functions in degrees",
    "      --integral <RULE>  Quadrature rule: rectangle, midpoint, trapezoid, simpson or " ++
      "simpson38",
    "      --digits <N>       Significant digits shown for results",
    "  -v, --verbose...       Log more, repeat for even more",
    "  -h, --help             Print help",
    "  -V, --version          Print version"]

/-- What an interactive session says of the language. -/
def helpText : List String :=
  ["Type an expression to evaluate it, for example `2sin(pi/4)^2`.",
    "Functions: sin cos tan sec csc cot, arc- and hyperbolic forms, exp ln abs sqrt,",
    "  integral(f,lo,hi) sum(f,lo,hi) product(f,lo,hi) rand(n) rand().",
    "Registers: ans mem fans fmem. Constants: pi e.",
    "Commands: :mode rad|deg, :integral <rule>, :divisions <n>, :sto, :fsto <f>,",
    "  :fans <f>, :digits <n>, :notation scientific|engineering, :show.",
    "To quit, type `quit` or press Ctrl+D."]

/-- The problem of a line that is no text. -/
def undecodableLine : Text := text "Line is not valid UTF-8."

/-! ### Going through lines -/

/-- Lines of output, whether a line of input failed, and whether one broke the program off. -/
structure Transcript where
  output : List Text
  hasFailed : Bool
  isAborted : Bool
deriving DecidableEq

namespace Transcript

/-- Nothing done. -/
def empty : Transcript := ⟨[], false, false⟩

/-- The transcript with that of further lines after it, unless the program broke off before
them. -/
def append (t later : Transcript) : Transcript :=
  if t.isAborted then t
  else ⟨t.output ++ later.output, t.hasFailed || later.hasFailed, later.isAborted⟩

/-- The exit code after the lines. -/
def exitCode (t : Transcript) : Nat := if t.isAborted then 101 else if t.hasFailed then 1 else 0

end Transcript

/-- The text that bytes hold in UTF-8. -/
def decode? (bytes : List UInt8) : Option Text :=
  (String.fromUTF8? ⟨bytes.toArray⟩).map String.toList

/-- The lines of a script, each without the line feed that ends it. What stands after the
last line feed counts as a line only if it is not empty. -/
def scriptLines (bytes : List UInt8) : List (List UInt8) :=
  match (pieces (· = 10) bytes).reverse with
  | [] :: ended => ended.reverse
  | all => all.reverse

namespace Console

/-- Runs a line of a script, which is given in bytes. -/
def executeBytes (c : Console) (draws : Draws) (line : List UInt8) : Execution :=
  match decode? line with
  | some line => c.execute draws line
  | none => ⟨some (c.problem undecodableLine), true, false, c⟩

/-- Runs the lines of a script, the first of them line `n` of the run. -/
def runScript (draws : Draws) : Nat → Console → List (List UInt8) → Transcript
  | _, _, [] => .empty
  | n, c, line :: rest =>
    let ran := c.executeBytes (draws.onLine n) line
    .append ⟨ran.output.toList, ran.hasFailed, ran.isAborted⟩
      (runScript draws (n + 1) ran.console rest)

/-- Runs expressions, the first of them line `n` of the run, and repeats each before its
output. -/
def runExpressions (draws : Draws) : Nat → Console → List Text → Transcript
  | _, _, [] => .empty
  | n, c, line :: rest =>
    let ran := c.execute (draws.onLine n) line
    .append ⟨c.echo line :: ran.output.toList, ran.hasFailed, ran.isAborted⟩
      (runExpressions draws (n + 1) ran.console rest)

/-- What a line of an interactive session comes to, or the end of the session. No failure is
kept, since the exit code of a session does not show it. -/
def converse (c : Console) (draws : Draws) (line : Text) : Option (Transcript × Console) :=
  match String.ofList (trim line) with
  | "help" => some (⟨helpText.map text, false, false⟩, c)
  | "quit" | ":q" | "exit" => none
  | _ =>
    let ran := c.execute draws line
    some (⟨ran.output.toList, false, ran.isAborted⟩, ran.console)

/-- Goes through the lines of an interactive session, the first of them line `n`, up to one
that ends the session or is no text. -/
def runDialogue (draws : Draws) : Nat → Console → List (List UInt8) → Transcript
  | _, _, [] => .empty
  | n, c, bytes :: rest =>
    match (decode? bytes).bind (c.converse (draws.onLine n)) with
    | some (done, c) => .append done (runDialogue draws (n + 1) c rest)
    | none => .empty

end Console

/-! ### The start -/

/-- What a command line is run with. -/
structure Surroundings where
  /-- Whether output is to be without colors where the configuration leaves this open. -/
  noColor : Bool
  /-- The path of the configuration that is read where none is named. -/
  configPath : Text
  /-- The contents of a file, if it can be read. -/
  contents : Text → Option (List UInt8)
  /-- The contents of the standard input. -/
  input : List UInt8
  draws : Draws

/-- Why the program does not start on a command line. -/
inductive StartError where
  | missingFile (path : Text)
  | badConfiguration (path : Text)
  | badValue (option : ValueOption) (value : Text)
deriving DecidableEq

/-- What is reported of a start that fails. -/
def StartError.message : StartError → Text
  | missingFile path => text "Failed to read file `" ++ path ++ ['`']
  | badConfiguration path => text "Failed to parse configuration `" ++ path ++ ['`']
  | badValue option value =>
    text "Bad value `" ++ value ++ text "` for --" ++ text option.name

namespace Options

/-- The configuration that the options name, or else the one at the usual path, which may be
missing. -/
def configuration (o : Options) (s : Surroundings) : Except StartError Configuration :=
  let path := o.config.getD s.configPath
  match s.contents path with
  | some bytes =>
    match (decode? bytes).bind Configuration.ofText? with
    | some c => .ok c
    | none => .error (.badConfiguration path)
  | none => if o.config.isSome then .error (.missingFile path) else .ok .standard

/-- The value of an option, read by `read`, if the option is there. -/
def valueOf? {α : Type} (o : Options) (option : ValueOption) (read : Text → Except Failure α) :
    Except StartError (Option α) :=
  match o.value option with
  | none => .ok none
  | some value =>
    match read value with
    | .ok a => .ok (some a)
    | .error _ => .error (.badValue option value)

/-- The configuration with the settings that the options override. -/
def override (o : Options) (c : Configuration) : Except StartError Configuration := do
  let rule ← o.valueOf? .integral QuadratureRule.ofName
  let digits ← o.valueOf? .digits Display.readDigits
  .ok { c with
    angleMode := if o.degrees then .degrees else c.angleMode
    rule := rule.getD c.rule
    display := { c.display with digits := digits.getD c.display.digits } }

/-- The configuration to start with. -/
def start (o : Options) (s : Surroundings) : Except StartError Configuration := do
  o.override (← o.configuration s)

/-! ### The answer -/

/-- Whether the options ask for an interactive session. -/
def isInteractive (o : Options) : Bool :=
  !o.configPath && o.file.isNone && o.expressions.isEmpty

/-- What the run comes to. The path of the configuration comes before a script, and a script
before expressions. -/
def run (o : Options) (s : Surroundings) : Except StartError Transcript := do
  let console := Console.ofConfiguration (← o.start s) s.noColor
  if o.configPath then .ok ⟨[s.configPath], false, false⟩
  else
    match o.file with
    | some path =>
      match if path = ['-'] then some s.input else s.contents path with
      | some bytes => .ok (console.runScript s.draws 0 (scriptLines bytes))
      | none => .error (.missingFile path)
    | none =>
      if o.expressions.isEmpty then .ok (console.runDialogue s.draws 0 (scriptLines s.input))
      else .ok (console.runExpressions s.draws 0 o.expressions)

end Options

/-- What the program writes, and its exit code. -/
structure Response where
  exitCode : Nat
  output : List Text
  problem : Option Text
deriving DecidableEq

namespace Invocation

/-- The answer to what the program is asked to do. -/
def respond (i : Invocation) (s : Surroundings) : Response :=
  match i with
  | .version => ⟨0, [text versionLine], none⟩
  | .help => ⟨0, usage.map text, none⟩
  | .run o =>
    match o.run s with
    | .ok done => ⟨done.exitCode, done.output, none⟩
    | .error e => ⟨1, [], some e.message⟩

end Invocation

/-- The answer to a command line. -/
def respond (arguments : List Text) (s : Surroundings) : Response :=
  match Invocation.ofArguments arguments with
  | .ok i => i.respond s
  | .error e => ⟨2, [], some e.message⟩

end DecimalCalculator
