import HttpRouting.Handler.Run

/-!
What a request comes to.
-/

namespace HttpRouting

/-- The outcome of a request. -/
inductive Outcome
  /-- A route matched and its handlers ran. -/
  | handled (run : Run)
  /-- The path has a route only with its trailing slash flipped. -/
  | redirect (location : Text) (status : Nat)
  /-- Other methods have a route for the path. -/
  | methodNotAllowed (allow : List Method) (run : Run)
  | notFound (run : Run)

namespace Outcome

/-- The run of the handlers, if there was one. -/
def run? : Outcome → Option Run
  | .handled r | .methodNotAllowed _ r | .notFound r => some r
  | .redirect .. => none

/-- The request as the handlers left it. -/
def exchange? (x : Outcome) : Option Exchange := x.run?.map (·.exchange)

/-- The log of the handlers. -/
def log (x : Outcome) : List Note := (x.run?.map (·.log)).getD []

/-- The status of the response. -/
def status : Outcome → Nat
  | .handled r => r.exchange.status.getD 200
  | .redirect _ status => status
  | .methodNotAllowed _ r => r.exchange.status.getD 405
  | .notFound r => r.exchange.status.getD 404

/-- Where a redirect leads. -/
def location? : Outcome → Option Text
  | .redirect location _ => some location
  | _ => none

/-- The methods that have a route for the path, where this one has none. -/
def allow : Outcome → List Method
  | .methodNotAllowed allow _ => allow
  | _ => []

/-- The word for the kind of outcome. -/
def kind : Outcome → String
  | .handled _ => "handled"
  | .redirect .. => "redirect"
  | .methodNotAllowed .. => "method_not_allowed"
  | .notFound _ => "not_found"

end Outcome

end HttpRouting
