import DecimalCalculator.Text.Characters

/-!
The options of the command line.

* `Options`: what a command line asks for.
* `Invocation.ofArguments`: reads the arguments from left to right. An option may take its
  value from the same argument or from the next one; after `--` every argument is an
  expression. A request for the version or for help ends the reading.
-/

namespace DecimalCalculator

/-! ### Options -/

/-- The options that take a value. -/
inductive ValueOption where
  | file | config | integral | digits
deriving DecidableEq

namespace ValueOption

/-- All options with a value. -/
def all : List ValueOption := [file, config, integral, digits]

/-- The long name, after two dashes. -/
def name : ValueOption → String
  | file => "file"
  | config => "config"
  | integral => "integral"
  | digits => "digits"

/-- The letter of the short name, if there is one. -/
def letter : ValueOption → Option Char
  | file => some 'f'
  | config => some 'c'
  | _ => none

end ValueOption

/-- The options without a value. -/
inductive Flag where
  | configPath | degrees | verbose | help | version
deriving DecidableEq

namespace Flag

/-- All options without a value. -/
def all : List Flag := [configPath, degrees, verbose, help, version]

/-- The long name, after two dashes. -/
def name : Flag → String
  | configPath => "config-path"
  | degrees => "degrees"
  | verbose => "verbose"
  | help => "help"
  | version => "version"

/-- The letter of the short name, if there is one. -/
def letter : Flag → Option Char
  | configPath => none
  | degrees => some 'd'
  | verbose => some 'v'
  | help => some 'h'
  | version => some 'V'

end Flag

/-- What a command line asks for. -/
structure Options where
  file : Option Text
  config : Option Text
  integral : Option Text
  digits : Option Text
  configPath : Bool
  degrees : Bool
  verbosity : Nat
  expressions : List Text
deriving DecidableEq

/-- Why a command line is refused. -/
inductive UsageError where
  | unknownOption (argument : Text)
  | missingValue (option : ValueOption)
  | unexpectedValue (flag : Flag)
  | repeatedOption (name : Text)
deriving DecidableEq

/-- What is reported of a command line that is refused. -/
def UsageError.message : UsageError → Text
  | unknownOption argument => text "unexpected argument " ++ argument
  | missingValue option => text "a value is required for --" ++ text option.name
  | unexpectedValue flag => text "no value is allowed for --" ++ text flag.name
  | repeatedOption name => text "only one value is allowed for --" ++ name

namespace Options

/-- Nothing asked for. -/
def empty : Options := ⟨none, none, none, none, false, false, 0, []⟩

/-- The value of an option. -/
def value (o : Options) : ValueOption → Option Text
  | .file => o.file
  | .config => o.config
  | .integral => o.integral
  | .digits => o.digits

/-- The options with a value for one that has none yet. -/
def withValue (o : Options) (option : ValueOption) (value : Text) : Except UsageError Options :=
  if (o.value option).isSome then .error (.repeatedOption (text option.name))
  else
    match option with
    | .file => .ok { o with file := some value }
    | .config => .ok { o with config := some value }
    | .integral => .ok { o with integral := some value }
    | .digits => .ok { o with digits := some value }

end Options

/-! ### Reading arguments -/

/-- What the program is asked to do. -/
inductive Invocation where
  | run (o : Options)
  | help
  | version
deriving DecidableEq

namespace Invocation

/-- Where the reading of arguments stands. -/
inductive Progress where
  /-- Ready for the next argument. -/
  | options (o : Options)
  /-- The next argument is the value of an option. -/
  | awaiting (option : ValueOption) (o : Options)
  /-- Nothing more is read. -/
  | finished (i : Invocation)

/-- Takes in an option without a value. Only the request to log more may be repeated. -/
def takeFlag (o : Options) (flag : Flag) : Except UsageError Progress :=
  match flag with
  | .help => .ok (.finished .help)
  | .version => .ok (.finished .version)
  | .verbose => .ok (.options { o with verbosity := o.verbosity + 1 })
  | .configPath =>
    if o.configPath then .error (.repeatedOption (text flag.name))
    else .ok (.options { o with configPath := true })
  | .degrees =>
    if o.degrees then .error (.repeatedOption (text flag.name))
    else .ok (.options { o with degrees := true })

/-- Takes in an option with its value. -/
def takeValue (o : Options) (option : ValueOption) (value : Text) : Except UsageError Progress := do
  let o ← o.withValue option value
  .ok (.options o)

/-- Reads what follows the two dashes of a long option. -/
def readLong (o : Options) (argument : Text) : Except UsageError Progress :=
  let (name, value) := cutAt (· = '=') argument
  match ValueOption.all.find? fun option => text option.name = name with
  | some option =>
    match value with
    | some value => takeValue o option value
    | none => .ok (.awaiting option o)
  | none =>
    match Flag.all.find? fun flag => text flag.name = name with
    | some flag => if value.isSome then .error (.unexpectedValue flag) else takeFlag o flag
    | none => .error (.unknownOption ('-' :: '-' :: argument))

/-- Reads the letters after the dash of short options. The letters after one that takes a
value are that value, with or without an equals sign. -/
def readShort (o : Options) : Text → Except UsageError Progress
  | [] => .ok (.options o)
  | letter :: rest =>
    match ValueOption.all.find? fun option => option.letter = some letter with
    | some option =>
      match rest with
      | [] => .ok (.awaiting option o)
      | '=' :: value => takeValue o option value
      | value => takeValue o option value
    | none =>
      match Flag.all.find? fun flag => flag.letter = some letter with
      | none => .error (.unknownOption ['-', letter])
      | some flag =>
        match takeFlag o flag with
        | .ok (.options o) => readShort o rest
        | other => other

/-- Reads an argument: an option, or an expression. A single dash is no option. -/
def readArgument (o : Options) (argument : Text) : Except UsageError Progress :=
  match argument with
  | '-' :: '-' :: long => readLong o long
  | '-' :: letter :: rest => readShort o (letter :: rest)
  | _ => .ok (.options { o with expressions := o.expressions ++ [argument] })

/-- Whether an argument is read as an option, and so cannot be the value of one. -/
def looksLikeOption : Text → Bool
  | '-' :: _ :: _ => true
  | _ => false

/-- Reads the arguments that follow. -/
def read : Progress → List Text → Except UsageError Invocation
  | .finished i, _ => .ok i
  | .options o, [] => .ok (.run o)
  | .awaiting option _, [] => .error (.missingValue option)
  | .awaiting option o, argument :: rest =>
    if looksLikeOption argument then .error (.missingValue option)
    else
      match takeValue o option argument with
      | .ok progress => read progress rest
      | .error e => .error e
  | .options o, argument :: rest =>
    if argument = ['-', '-'] then .ok (.run { o with expressions := o.expressions ++ rest })
    else
      match readArgument o argument with
      | .ok progress => read progress rest
      | .error e => .error e

/-- What the arguments of a command line ask for. -/
def ofArguments (arguments : List Text) : Except UsageError Invocation :=
  read (.options .empty) arguments

end Invocation

end DecimalCalculator
