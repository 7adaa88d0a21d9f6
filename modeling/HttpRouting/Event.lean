import HttpRouting.Method
import HttpRouting.Text.Quoted

/-!
The events that registering, matching and answering report. Each has a level, a message and named
fields; events of an answer are recorded inside its span.
-/

namespace HttpRouting

/-- How severe an event is. -/
inductive Level
  | trace
  | debug
  | info
  | warn
  | error
  deriving DecidableEq, Repr

/-- Which part of a router resolved a path. -/
inductive Resolver
  | tree
  | fallback
  deriving DecidableEq, Repr

def Resolver.name : Resolver → Text
  | .tree => "radix_tree".toList
  | .fallback => "regex_fallback".toList

/-- Something worth reporting. -/
inductive Event
  | repeatedNames (method : Method) (pattern : Text) (names : List Text)
  | unreachable (method : Method) (pattern coveredBy : Text)
  | registered (method : Method) (pattern : Text)
  | fallbackBuilt (count : Nat)
  | prepared (method : Method) (count : Nat)
  | replaced (count : Nat)
  | lookedUp (method : Method) (path : Text)
  | matched (method : Method) (path pattern : Text) (resolver : Resolver)
  | slashAdvised (method : Method) (path : Text)
  | notMatched (method : Method) (path : Text)
  | answered (status : Nat) (aborted : Bool)
  | redirecting (location : Text) (status : Nat)
  | methodNotAllowed (allow : List Method)
  | notFound
  | handlerFailed (route message : Text)
  deriving DecidableEq, Repr

namespace Event

def level : Event → Level
  | .repeatedNames .. | .unreachable .. | .methodNotAllowed _ => .warn
  | .prepared .. | .replaced _ => .info
  | .handlerFailed .. => .error
  | _ => .debug

def message : Event → String
  | .repeatedNames .. => "Duplicate parameter names; lookups by name return the last capture"
  | .unreachable .. => "Route is unreachable: an earlier route matches every path it can match"
  | .registered .. => "Route registered"
  | .fallbackBuilt _ => "Fallback route table flattened"
  | .prepared .. => "Routing table loaded"
  | .replaced _ => "Routing table replaced"
  | .lookedUp .. => "Route match attempt"
  | .matched .. => "Route matched"
  | .slashAdvised .. => "Trailing slash redirect recommended"
  | .notMatched .. => "No route matched"
  | .answered .. => "Request dispatched"
  | .redirecting .. => "Redirecting to toggled trailing slash"
  | .methodNotAllowed _ => "Method not allowed"
  | .notFound => "No route found"
  | .handlerFailed .. => "Handler panicked"

/-- Texts between brackets, separated by commas. -/
def bracketed (items : List Text) : Text :=
  '[' :: List.intercalate [',', ' '] items ++ [']']

def number (n : Nat) : Text := Nat.toDigits 10 n

/-- The named fields, as text. -/
def fields : Event → List (String × Text)
  | .repeatedNames method pattern names =>
    [("method", method.token), ("pattern", pattern),
      ("duplicates", bracketed (names.map Text.quote))]
  | .unreachable method pattern coveredBy =>
    [("method", method.token), ("pattern", pattern), ("shadowed_by", coveredBy)]
  | .registered method pattern => [("method", method.token), ("pattern", pattern)]
  | .fallbackBuilt count => [("routes_count", number count)]
  | .prepared method count =>
    [("method", method.token), ("routes_count", number count),
      ("routing_algorithm", "radix_tree+regex_fallback".toList)]
  | .replaced count => [("routes_count", number count)]
  | .lookedUp method path => [("method", method.token), ("path", path)]
  | .matched method path pattern resolver =>
    [("method", method.token), ("path", path), ("route_pattern", pattern),
      ("algorithm", resolver.name)]
  | .slashAdvised method path => [("method", method.token), ("path", path)]
  | .notMatched method path => [("method", method.token), ("path", path)]
  | .answered status aborted =>
    [("status", number status), ("aborted", if aborted then "true".toList else "false".toList)]
  | .redirecting location status => [("location", location), ("status", number status)]
  | .methodNotAllowed allow => [("allow", bracketed (allow.map (·.token)))]
  | .notFound => []
  | .handlerFailed route message => [("route", route), ("panic_message", message)]

end Event

/-- An event with the span in which it was reported. -/
structure Record where
  event : Event
  span : Option String
  deriving DecidableEq, Repr

end HttpRouting
