import HttpRouting.RoutingError

/-!
What can go wrong when settings and routes are loaded from files, and how it is worded.
-/

namespace HttpRouting

/-- Settings or routes that could not be loaded. -/
inductive LoadError
  | settingsSyntax
  | routesSyntax
  | settingsUnreadable (file : Text)
  | routesUnreadable (file : Text)
  | settingsInvalid (file : Text)
  | routesInvalid (file : Text)
  /-- A method that is no token, as it was written. -/
  | badMethod (written : Text)
  /-- A route was refused; its method as it was written. -/
  | refused (written pattern : Text) (cause : RoutingError)
  deriving DecidableEq, Repr

namespace LoadError

/-- What is said of settings that make no sense. -/
def badSettings : String := "Failed to parse router config"

/-- What is said of a list of routes that makes no sense. -/
def badRoutes : String := "Failed to parse route file"

/-- The message, outermost cause first. -/
def message : LoadError → String
  | .settingsSyntax => badSettings
  | .routesSyntax => badRoutes
  | .settingsUnreadable file => "Failed to read config file " ++ String.ofList file
  | .routesUnreadable file => "Failed to read route file " ++ String.ofList file
  | .settingsInvalid file => "Invalid config file " ++ String.ofList file ++ ": " ++ badSettings
  | .routesInvalid file => "Invalid route file " ++ String.ofList file ++ ": " ++ badRoutes
  | .badMethod written => "Invalid HTTP method '" ++ String.ofList written ++ "'"
  | .refused written pattern cause =>
    "Failed to register " ++ String.ofList written ++ " " ++ String.ofList pattern ++ ": "
      ++ cause.message

end LoadError

/-- Reads a method as it is written in a file or on a command line. -/
def Method.parse (written : Text) : Except LoadError Method :=
  match ofWritten? written with
  | some m => .ok m
  | none => .error (.badMethod written)

end HttpRouting
