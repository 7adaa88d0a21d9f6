import HttpRouting.Method
import HttpRouting.Pattern.Parser

/-!
What can go wrong when routes are registered and when a request is read, and how it is worded.
-/

namespace HttpRouting

/-- The wording of a pattern fault. -/
def Pattern.Fault.reason : Pattern.Fault → String
  | .noLeadingSlash => "pattern must start with '/'"
  | .emptySegment => "empty path segment ('//')"
  | .catchAllNotLast => "catch-all must be the final segment"
  | .badCatchAll segment => "invalid catch-all '" ++ String.ofList segment ++ "': expected '*name'"
  | .unterminated => "unterminated '\x7b'"
  | .nested => "nested '\x7b' in parameter"
  | .unknownType type => "unknown parameter type '" ++ String.ofList type ++ "'"
  | .badName name => "invalid parameter name '" ++ String.ofList name ++ "'"
  | .unmatched => "unmatched '\x7d'"

/-- A route that was refused, or a read of a request that failed. -/
inductive RoutingError
  /-- The method has a route whose pattern equals this one, letter case aside. -/
  | taken (method : Method) (pattern : Text)
  /-- The text is no pattern. -/
  | malformed (pattern : Text) (fault : Pattern.Fault)
  /-- No routes can be registered for the method. -/
  | unsupported (method : Method)
  /-- A value was required under a key that was never set. -/
  | unset (key : Text)
  /-- The value of a path parameter is not a number of the wanted range. -/
  | notNumber (name value : Text)
  deriving DecidableEq, Repr

namespace RoutingError

def message : RoutingError → String
  | .taken method pattern =>
    "route conflict: " ++ method.name ++ " " ++ String.ofList pattern ++ " is already registered"
  | .malformed pattern fault =>
    "malformed route pattern '" ++ String.ofList pattern ++ "': " ++ fault.reason
  | .unsupported method => "unsupported HTTP method: " ++ method.name
  | .unset key => "key \"" ++ String.ofList key ++ "\" does not exist"
  | .notNumber name value =>
    "path parameter '" ++ String.ofList name ++ "' has invalid value '" ++ String.ofList value
      ++ "'"

end RoutingError

end HttpRouting
