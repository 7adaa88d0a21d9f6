import HttpRouting.Cli.Arguments
import HttpRouting.Settings

/-!
The command line: two commands, one that lists routes and one that answers paths.
-/

namespace HttpRouting.Cli

/-- A command to run. -/
inductive Command
  /-- Lists the trees and the unreachable routes. -/
  | list (routes : Text) (settings : Option Text)
  /-- Answers requests for paths and reports each outcome. -/
  | answer (routes : Text) (settings : Option Text) (method : Text) (paths : List Text)
  deriving DecidableEq, Repr

namespace Command

/-- The files that the command reads. -/
def files : Command → List Text
  | .list file settings => file :: settings.toList
  | .answer file settings _ _ => file :: settings.toList

/-- The paths that the command asks for. -/
def paths : Command → List Text
  | .list .. => []
  | .answer _ _ _ paths => paths

/-- The variable that names the settings file if no option does. -/
def settingsVariable : String := "MUXTREE_CONFIG"

/-- Reads the arguments of a command. -/
def ofArguments (verb : Verb) (env : Environment) (args : List Text) :
    Except UsageError Command := do
  let a ← Arguments.read verb .start args
  let settings ←
    match a.values.lookup .settings, env settingsVariable with
    | some file, _ => .ok (some file)
    | none, some [] => .error .missingValue
    | none, file => .ok file
  match verb, a.values.lookup .routes with
  | _, none => .error .missingArgument
  | .list, some file => return .list file settings
  | .answer, some file =>
    if a.paths = [] then .error .missingArgument
    else return .answer file settings ((a.values.lookup .method).getD ['G', 'E', 'T']) a.paths

/-- What asking for help on a command answers: help, if there is such a command. -/
def help : List Text → UsageError
  | [] => .helpAsked
  | [name] =>
    if (Verb.ofText? name).isSome || name = "help".toList then .helpAsked else .unknownCommand
  | _ => .unknownCommand

/-- Reads a command line. -/
def parse (env : Environment) : List Text → Except UsageError Command
  | [] => .error .noCommand
  | t :: rest =>
    match Verb.ofText? t with
    | some verb => ofArguments verb env rest
    | none =>
      if t = "help".toList then .error (help rest)
      else
        match t with
        | ['-', '-'] =>
          match rest with
          | [] => .error .noCommand
          | name :: _ =>
            if (Verb.ofText? name).isSome || name = "help".toList then .error .unknownArgument
            else .error .unknownCommand
        | '-' :: '-' :: long =>
          if long = "help".toList then .error .helpAsked
          else if long.takeWhile (· ≠ '=') = "help".toList then .error .excessValue
          else .error .unknownArgument
        | '-' :: c :: _ => .error (if c = 'h' then .helpAsked else .unknownArgument)
        | _ => .error .unknownCommand

end Command

end HttpRouting.Cli
