import HttpRouting.Router.Resolution

/-!
One-line descriptions of resolutions and routes, with their texts quoted.
-/

namespace HttpRouting

def describeOption (t : Option Text) : Text :=
  match t with
  | none => "None".toList
  | some t => "Some(".toList ++ t ++ [')']

/-- Fields of a described value, between braces. -/
def describeFields (name : String) (fields : List (String × Text)) : Text :=
  name.toList ++ [' ', '\x7b', ' ']
    ++ List.intercalate [',', ' '] (fields.map fun (k, v) => k.toList ++ [':', ' '] ++ v)
    ++ [' ', '\x7d']

def Param.describe (p : Param) : Text :=
  describeFields "Param" [("key", Text.quote p.name), ("value", Text.quote p.value)]

def Params.describe (ps : Params) : Text :=
  "Params(".toList ++ Event.bracketed (ps.map Param.describe) ++ [')']

/-- What was found, with the number of handlers, and whether to flip the trailing slash. -/
def Resolution.describe (x : Resolution) : Text :=
  describeFields "MatchResult" [
    ("handlers", describeOption (x.route?.map fun r => Event.number r.handlers.length)),
    ("params", Params.describe x.params),
    ("full_path", describeOption (x.route?.map fun r => Text.quote r.text)),
    ("tsr", if x.advisesSlash then "true".toList else "false".toList)]

/-- A route with its expression, its names and the number of its handlers. -/
def Route.describe (r : Route) : Text :=
  describeFields "RouteEntry" [
    ("full_path", Text.quote r.text),
    ("regex", Text.quote r.pattern.regex.source),
    ("param_names", Event.bracketed (r.names.map Text.quote)),
    ("handlers", Event.number r.handlers.length),
    ("seq", Event.number r.number)]

end HttpRouting
