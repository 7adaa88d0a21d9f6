import HttpRouting.Event
import HttpRouting.Router.Route
import HttpRouting.Router.Tree

/-!
Routers: for each method a tree of its routes, the list of them, and a fallback table that is built
when it is first needed.
-/

namespace HttpRouting

/-- The routes of one method. -/
structure MethodRoutes where
  tree : Tree
  /-- The patterns of the routes in lower case, to tell those that are taken. -/
  taken : List Text
  /-- The routes in the order of registration. -/
  routes : List Route
  /-- The fallback table, once it has been built. -/
  built? : Option Fallback

namespace MethodRoutes

def empty : MethodRoutes := ⟨.empty, [], [], none⟩

/-- The fallback table: the one built before, or all routes of the tree in order. -/
def fallback (t : MethodRoutes) : Fallback := t.built?.getD (.ofRoutes t.tree.routes)

/-- The same routes with the fallback table built. -/
def build (t : MethodRoutes) : MethodRoutes := { t with built? := some t.fallback }

/-- What building the table reports: nothing if it is built already. -/
def buildEvents (t : MethodRoutes) : List Event :=
  if t.built?.isSome then [] else [.fallbackBuilt t.fallback.routes.length]

/-- Whether a pattern is registered already, letter case aside. -/
def holds (t : MethodRoutes) (pattern : Pattern) : Bool := t.taken.contains (Text.lower pattern.text)

/-- Adds a route, and gives the fallback table up; or names the route that the tree has at the same
place. -/
def insert (t : MethodRoutes) (r : Route) : MethodRoutes × Option Route :=
  match t.tree.insert r r.pattern.key with
  | (tree, some other) => ({ t with tree }, some other)
  | (tree, none) => (⟨tree, t.taken ++ [Text.lower r.text], t.routes ++ [r], none⟩, none)

end MethodRoutes

/-- A route that is never reached, as an earlier one matches every path of it. -/
structure Unreachable where
  method : Method
  pattern : Text
  coveredBy : Text
  deriving DecidableEq, Repr

/-- Routes by method. -/
structure Router where
  /-- The methods that have routes. -/
  methods : List (Method × MethodRoutes)
  /-- The number of routes registered so far. -/
  count : Nat
  unreachable : List Unreachable

namespace Router

def empty : Router := ⟨[], 0, []⟩

/-- The routes of a method, if it has any. -/
def routesOf? (r : Router) (method : Method) : Option MethodRoutes := r.methods.lookup method

/-- Replaces the routes of a method. -/
def setRoutes (method : Method) (t : MethodRoutes) :
    List (Method × MethodRoutes) → List (Method × MethodRoutes)
  | [] => [(method, t)]
  | (m, s) :: rest => if m = method then (m, t) :: rest else (m, s) :: setRoutes method t rest

/-- The router with a place for the routes of a method. -/
def withMethod (r : Router) (method : Method) : Router :=
  match r.routesOf? method with
  | some _ => r
  | none => { r with methods := setRoutes method .empty r.methods }

/-- The router with the fallback table of one method built. -/
def build (r : Router) (method : Method) : Router :=
  match r.routesOf? method with
  | some t => { r with methods := setRoutes method t.build r.methods }
  | none => r

/-- The router with every fallback table built. -/
def buildAll (r : Router) : Router :=
  { r with methods := r.methods.map fun (m, t) => (m, t.build) }

/-- What building every table reports. -/
def buildEvents (r : Router) : List Event := r.methods.flatMap fun (_, t) => t.buildEvents

/-- Every registered method and pattern, in the order of registration. -/
def routes (r : Router) : List (Method × Text) :=
  let all := r.methods.flatMap fun (m, t) => t.routes.map fun e => (e.number, m, e.text)
  (all.mergeSort fun a b => a.1 ≤ b.1).map (·.2)

end Router

end HttpRouting
