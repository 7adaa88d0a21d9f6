import HttpRouting.Text.Basic

/-!
Environment variables, and the switches of matching and answering that are read from them.
-/

namespace HttpRouting

/-- The value of a variable, if it is set. -/
abbrev Environment := String → Option Text

/-- The value of a variable as `read` makes sense of it. One that is not set or makes no sense
leaves the default. -/
def Environment.get {α : Type} (env : Environment) (name : String) (read : Text → Option α)
    (default : α) : α :=
  ((env name).bind read).getD default

/-- How requests are matched and answered. -/
structure Settings where
  /-- Answers a path that lacks a trailing slash, or has one too many, with a redirect. -/
  redirectSlash : Bool := true
  /-- Answers 405 with the allowed methods where other methods have a route. -/
  reportAllowed : Bool := false
  /-- Percent-decodes the values captured by the fallback table. -/
  unescape : Bool := true
  /-- Builds fallback tables before the first request. -/
  prebuild : Bool := true
  deriving DecidableEq, Repr

namespace Settings

/-- Reads a switch, letter case and blanks around it aside. -/
def switch? (t : Text) : Option Bool :=
  let word := String.ofList (Text.lower (Text.trim t))
  if word ∈ ["1", "true", "yes", "on"] then some true
  else if word ∈ ["0", "false", "no", "off"] then some false
  else none

/-- The variables of the switches. -/
def variableNames : List String := [
  "MUXTREE_REDIRECT_TRAILING_SLASH", "MUXTREE_HANDLE_METHOD_NOT_ALLOWED",
  "MUXTREE_UNESCAPE_PATH_VALUES", "MUXTREE_PRECOMPILE"]

/-- Reads the switches from the environment. -/
def ofEnvironment (env : Environment) : Settings :=
  let default : Settings := {}
  { redirectSlash := env.get "MUXTREE_REDIRECT_TRAILING_SLASH" switch? default.redirectSlash
    reportAllowed := env.get "MUXTREE_HANDLE_METHOD_NOT_ALLOWED" switch? default.reportAllowed
    unescape := env.get "MUXTREE_UNESCAPE_PATH_VALUES" switch? default.unescape
    prebuild := env.get "MUXTREE_PRECOMPILE" switch? default.prebuild }

end Settings

end HttpRouting
