import HttpRouting.Text.Basic

/-!
The arguments of a command: options with their values, and paths. Options are taken in any order,
also behind the paths; `--` ends them. A value follows its option, or is attached to it, with or
without an equals sign behind a single letter.
-/

namespace HttpRouting.Cli

/-- Why there is no command to run; asking for help is among the reasons. -/
inductive UsageError
  | helpAsked
  | noCommand
  | unknownCommand
  | unknownArgument
  | missingArgument
  /-- An option without a value, or an empty file name. -/
  | missingValue
  /-- An option given twice. -/
  | repeatedOption
  | excessValue
  deriving DecidableEq, Repr

namespace UsageError

/-- How the program is called. -/
def usage : String :=
  "Inspect and test route tables\n\n"
    ++ "Usage: muxtree routes --routes <ROUTES> [--config <CONFIG>]\n"
    ++ "       muxtree match --routes <ROUTES> [--config <CONFIG>] [--method <METHOD>] <PATHS>..."

/-- What is wrong, and how the program is called. -/
def message (e : UsageError) : String :=
  match e with
  | .helpAsked | .noCommand => usage
  | .unknownCommand => "error: unrecognized subcommand\n\n" ++ usage
  | .unknownArgument => "error: unexpected argument\n\n" ++ usage
  | .missingArgument => "error: a required argument is missing\n\n" ++ usage
  | .missingValue => "error: a value is required for an option but none was supplied\n\n" ++ usage
  | .repeatedOption => "error: an argument cannot be used multiple times\n\n" ++ usage
  | .excessValue => "error: unexpected value for an option that takes none\n\n" ++ usage

end UsageError

/-- The two commands, without their arguments. -/
inductive Verb
  | list
  | answer
  deriving DecidableEq, Repr

def Verb.ofText? (t : Text) : Option Verb :=
  if t = "routes".toList then some .list
  else if t = "match".toList then some .answer
  else none

/-- An option that takes a value. -/
inductive Flag
  | routes
  | settings
  | method
  deriving DecidableEq, Repr

namespace Flag

def ofLong? (verb : Verb) (name : Text) : Option Flag :=
  if name = "routes".toList then some .routes
  else if name = "config".toList then some .settings
  else if verb = .answer && name = "method".toList then some .method
  else none

def ofShort? (verb : Verb) (c : Char) : Option Flag :=
  if c = 'r' then some .routes
  else if c = 'c' then some .settings
  else if verb = .answer && c = 'm' then some .method
  else none

/-- The value names a file, and must not be empty. -/
def isFile : Flag → Bool
  | .routes | .settings => true
  | .method => false

end Flag

/-- What has been read of the arguments. -/
structure Arguments where
  values : List (Flag × Text)
  paths : List Text
  /-- The option read last, with its value if one has come; checked when the next one is read. -/
  pending : Option (Flag × Option Text)

namespace Arguments

def start : Arguments := ⟨[], [], none⟩

/-- Takes the value of an option. -/
def assign (a : Arguments) (flag : Flag) (value : Text) : Except UsageError Arguments :=
  if (a.values.lookup flag).isSome then .error .repeatedOption
  else if flag.isFile && value = [] then .error .missingValue
  else .ok { a with values := a.values ++ [(flag, value)] }

/-- Settles the option read last. -/
def settle (a : Arguments) : Except UsageError Arguments :=
  match a.pending with
  | none => .ok a
  | some (_, none) => .error .missingValue
  | some (flag, some value) => { a with pending := none }.assign flag value

/-- Takes an option, whose value is attached or comes next. -/
def take (a : Arguments) (flag : Flag) (attached : Option Text) : Except UsageError Arguments := do
  let a ← a.settle
  match attached with
  | some value => a.assign flag value
  | none => return { a with pending := some (flag, none) }

/-- Takes the options written behind two dashes. -/
def long (verb : Verb) (a : Arguments) (t : Text) : Except UsageError Arguments :=
  let name := t.takeWhile (· ≠ '=')
  let attached := match t.dropWhile (· ≠ '=') with
    | [] => none
    | _ :: value => some value
  if name = "help".toList then
    match attached with
    | some _ => .error .excessValue
    | none => do
      let _ ← a.settle
      .error .helpAsked
  else
    match Flag.ofLong? verb name with
    | some flag => a.take flag attached
    | none => .error .unknownArgument

/-- Takes the option written behind one dash. -/
def short (verb : Verb) (a : Arguments) (c : Char) (rest : Text) : Except UsageError Arguments :=
  if c = 'h' then do
    let _ ← a.settle
    .error .helpAsked
  else
    match Flag.ofShort? verb c with
    | some flag =>
      a.take flag <|
        match rest with
        | [] => none
        | '=' :: value => some value
        | value => some value
    | none => .error .unknownArgument

/-- Takes a path. Only one of the commands has paths. -/
def path (verb : Verb) (a : Arguments) (t : Text) : Except UsageError Arguments :=
  match verb with
  | .list => .error .unknownArgument
  | .answer => do
    let a ← a.settle
    return { a with paths := a.paths ++ [t] }

/-- Takes the arguments behind `--`. -/
def trailing (verb : Verb) : Arguments → List Text → Except UsageError Arguments
  | a, [] => a.settle
  | a, t :: rest => do trailing verb (← a.path verb t) rest

/-- Takes one argument after another. -/
def read (verb : Verb) : Arguments → List Text → Except UsageError Arguments
  | a, [] => a.settle
  | a, t :: rest =>
    match t with
    | ['-', '-'] => trailing verb a rest
    | '-' :: '-' :: t => do read verb (← a.long verb t) rest
    | '-' :: c :: t => do read verb (← a.short verb c t) rest
    | t =>
      match a.pending with
      | some (flag, none) => read verb { a with pending := some (flag, some t) } rest
      | _ => do read verb (← a.path verb t) rest

end Arguments

end HttpRouting.Cli
