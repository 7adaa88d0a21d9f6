import HttpRouting.Path
import HttpRouting.Router.Basic

/-!
How a router resolves paths. A walk through the tree goes first; then come the routes of the
fallback table, and then the advice to try the path with its trailing slash flipped.
-/

namespace HttpRouting

/-- How a path is resolved. -/
inductive Resolution
  /-- The method has no routes. -/
  | noRoutes
  /-- The walk found a route. -/
  | walked (route : Route) (params : Params)
  /-- The fallback table found one. -/
  | scanned (route : Route) (params : Params)
  /-- Only the path with its trailing slash flipped has a route. -/
  | slashAdvised
  | notMatched

namespace Resolution

/-- The route found, and the parameters of the path. -/
def found? : Resolution → Option (Route × Params)
  | .walked route params | .scanned route params => some (route, params)
  | _ => none

def route? (x : Resolution) : Option Route := x.found?.map (·.1)

/-- The parameters of the path; none if nothing matched. -/
def params (x : Resolution) : Params := (x.found?.map (·.2)).getD []

def isMatch (x : Resolution) : Bool := x.found?.isSome

/-- Whether the advice is to flip the trailing slash. -/
def advisesSlash : Resolution → Bool
  | .slashAdvised => true
  | _ => false

/-- Whether the fallback table was asked for. -/
def usesFallback : Resolution → Bool
  | .scanned .. | .slashAdvised | .notMatched => true
  | .noRoutes | .walked .. => false

/-- What resolving a squeezed path reports at its end. -/
def events (method : Method) (path : Text) : Resolution → List Event
  | .noRoutes => []
  | .walked route _ => [.matched method path route.text .tree]
  | .scanned route _ => [.matched method path route.text .fallback]
  | .slashAdvised => [.slashAdvised method path]
  | .notMatched => [.notMatched method path]

end Resolution

namespace MethodRoutes

/-- Whether the tree has a route for the path with its trailing slash flipped. -/
def resolvesFlipped (t : MethodRoutes) (path : Text) : Bool :=
  path ≠ ['/'] && (t.tree.lookup (Path.flipSlash path)).isSome

/-- Resolves a squeezed path. The fallback table is asked for the path with one trailing slash off;
if the flipped path has a route in the tree, only for routes that a walk cannot resolve. -/
def resolve (t : MethodRoutes) (path : Text) (unescape : Bool) : Resolution :=
  match t.tree.lookup path with
  | some (route, values) => .walked route (route.paramsOf values)
  | none =>
    if t.resolvesFlipped path then
      match t.fallback.findUnwalkable (Path.trimSlash path) unescape with
      | some (route, params) => .scanned route params
      | none => .slashAdvised
    else
      match t.fallback.find (Path.trimSlash path) unescape with
      | some (route, params) => .scanned route params
      | none => .notMatched

end MethodRoutes

namespace Router

/-- Resolves a path. Runs of slashes count as one. -/
def resolve (r : Router) (method : Method) (path : Text) (unescape : Bool) : Resolution :=
  match r.routesOf? method with
  | none => .noRoutes
  | some t => t.resolve (Path.squeeze path) unescape

/-- The methods that have a route for the path. -/
def allowed (r : Router) (path : Text) : List Method :=
  Method.supported.filter fun m => (r.resolve m path false).isMatch

/-- The fallback table of a method, if it has routes. -/
def fallback? (r : Router) (method : Method) : Option Fallback :=
  (r.routesOf? method).map MethodRoutes.fallback

end Router

end HttpRouting
