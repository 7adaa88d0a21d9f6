import HttpRouting.Cli.Report
import Std.Time.DateTime.Timestamp

/-!
The command line program: reads arguments, environment and files, runs the command and prints its
lines.
-/

namespace HttpRouting.Cli

/-- The variables among these that are set. -/
def readEnvironment (names : List String) : IO Environment := do
  let values ← names.filterMapM fun name => do
    return (← IO.getEnv name).map fun value => (name, value.toList)
  return fun name => values.lookup name

/-- The contents of the files that can be read. -/
def readFiles (names : List Text) : IO Files := do
  let contents ← names.filterMapM fun name => do
    try
      return some (name, (← IO.FS.readFile (String.ofList name)).toList)
    catch _ => return none
  return fun name => contents.lookup name

/-- A new identifier: the time in milliseconds, then 80 random bits. -/
def freshId : IO RequestId := do
  let now ← Std.Time.Timestamp.now
  let noise ← IO.rand 0 (Nat.pow 2 80 - 1)
  return .ofParts now.toMillisecondsSinceUnixEpoch.val.toNat noise

/-- Runs a command and prints its lines, or why it failed. -/
def Command.execute (command : Command) (env : Environment) : IO UInt32 := do
  let files ← readFiles command.files
  let ids ← command.paths.mapM fun _ => freshId
  match command.run files env fun n => ids.getD n ⟨0⟩ with
  | .ok lines =>
    for line in lines do
      IO.println (String.ofList line)
    return 0
  | .error e =>
    IO.eprintln ("Error: " ++ e.message)
    return 1

/-- Parses and runs a command line. -/
def execute (args : List Text) : IO UInt32 := do
  let env ← readEnvironment (Command.settingsVariable :: Settings.variableNames)
  match Command.parse env args with
  | .ok command => command.execute env
  | .error .helpAsked =>
    IO.println UsageError.usage
    return 0
  | .error e =>
    IO.eprintln e.message
    return 2

end HttpRouting.Cli

def main (args : List String) : IO UInt32 :=
  HttpRouting.Cli.execute (args.map String.toList)
