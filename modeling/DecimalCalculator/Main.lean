import DecimalCalculator.CommandLine.Response

/-!
The calculator as a program: it reads the files that a command line names, and writes what
`Invocation.respond` answers. An interactive session goes line by line.
-/

namespace DecimalCalculator

/-- The bytes of a file, if it can be read. -/
def readBytes (path : Text) : IO (Option (List UInt8)) := do
  try
    let bytes ← IO.FS.readBinFile (String.ofList path)
    return some bytes.toList
  catch _ => return none

/-- The path of the user's configuration. -/
def userConfigPath : IO Text := do
  let home := (← IO.getEnv "HOME").getD ""
  let base :=
    match ← IO.getEnv "XDG_CONFIG_HOME" with
    | some folder => if folder.startsWith "/" then folder else home ++ "/.config"
    | none => home ++ "/.config"
  return text (base ++ "/decicalc/config.toml")

/-- What the files that some options name hold. -/
def surroundings (o : Options) : IO Surroundings := do
  let configPath ← userConfigPath
  let mut files : List (Text × List UInt8) := []
  for path in configPath :: (o.config.toList ++ o.file.toList) do
    if let some bytes ← readBytes path then
      files := (path, bytes) :: files
  let input ← if o.file = some ['-'] then (← IO.getStdin).readBinToEnd else pure ByteArray.empty
  let seed ← IO.rand 0 0x4000000000000000
  return {
    noColor := (← IO.getEnv "NO_COLOR").isSome
    configPath := configPath
    contents := fun path => files.lookup path
    input := input.toList
    draws := Draws.ofSeed seed }

/-- Writes lines of output. -/
def writeLines (output : List Text) : IO Unit := do
  for line in output do
    IO.println (String.ofList line)

/-- Goes through the lines of an interactive session, the next of them line `n`, and gives the
exit code. -/
partial def interact (draws : Draws) (prompt : Option Text) (n : Nat) (c : Console) :
    IO UInt32 := do
  if let some prompt := prompt then
    IO.print (String.ofList prompt)
    (← IO.getStdout).flush
  let line ← try (← IO.getStdin).getLine catch _ => pure ""
  if line.isEmpty then return 0
  match c.converse (draws.onLine n) (text line) with
  | none => return 0
  | some (done, c) =>
    writeLines done.output
    if done.isAborted then return UInt32.ofNat done.exitCode
    interact draws prompt (n + 1) c

/-- Writes an answer, and gives its exit code. -/
def finish (r : Response) : IO UInt32 := do
  writeLines r.output
  if let some problem := r.problem then
    IO.eprintln ("error: " ++ String.ofList problem)
  return UInt32.ofNat r.exitCode

/-- Runs the program on the arguments of a command line. -/
def run (arguments : List String) : IO UInt32 := do
  match Invocation.ofArguments (arguments.map text) with
  | .error e => finish ⟨2, [], some e.message⟩
  | .ok (.run o) => do
    let s ← surroundings o
    match o.isInteractive, o.start s with
    | true, .ok c => do
      let isTerminal ← (← IO.getStdin).isTty
      interact s.draws (if isTerminal then some c.prompt else none) 0 (.ofConfiguration c s.noColor)
    | _, _ => finish ((Invocation.run o).respond s)
  | .ok i => do
    finish (i.respond (← surroundings .empty))

end DecimalCalculator

/-- The program. -/
def main (arguments : List String) : IO UInt32 := DecimalCalculator.run arguments
