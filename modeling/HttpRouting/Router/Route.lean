import HttpRouting.Handler.Script
import HttpRouting.Pattern.Regex
import HttpRouting.Text.Utf8

/-!
Routes: a pattern with its handlers, and the captures of a path that the pattern matches. A fallback
table tries the routes of one method one after another: the first in the order of registration whose
expression matches the path wins.
-/

namespace HttpRouting

/-- A registered route. -/
structure Route where
  pattern : Pattern
  handlers : List Handler
  /-- The number of routes that the router had registered before this one. -/
  number : Nat

namespace Route

/-- The pattern as registered. -/
def text (r : Route) : Text := r.pattern.text

def names (r : Route) : List Text := r.pattern.names

/-- The values under the names of the pattern, in pattern order. -/
def paramsOf (r : Route) (values : List Text) : Params :=
  List.zipWith Param.mk r.names values

/-- The parameters of a path that matches. With `unescape` each value is percent-decoded. -/
def capture? (r : Route) (path : Text) (unescape : Bool) : Option Params :=
  (r.pattern.regex.capture? path).map fun values =>
    r.paramsOf (if unescape then values.map Text.percentDecode else values)

end Route

/-- The routes of one method in the order of their registration. -/
structure Fallback where
  routes : List Route

namespace Fallback

/-- Orders routes by their numbers. -/
def ofRoutes (routes : List Route) : Fallback := ⟨routes.mergeSort fun a b => a.number ≤ b.number⟩

/-- The first of some routes that matches the path, with its parameters. -/
def firstMatch (path : Text) (unescape : Bool) (routes : List Route) : Option (Route × Params) :=
  routes.findSome? fun r => (r.capture? path unescape).map (r, ·)

/-- The first route that matches the path. -/
def find (f : Fallback) (path : Text) (unescape : Bool) : Option (Route × Params) :=
  firstMatch path unescape f.routes

/-- The first matching route among those that a walk through the tree cannot resolve. -/
def findUnwalkable (f : Fallback) (path : Text) (unescape : Bool) : Option (Route × Params) :=
  firstMatch path unescape (f.routes.filter fun r => !r.pattern.isWalkable)

end Fallback

end HttpRouting
