import HttpRouting.Pattern.Subsumption
import HttpRouting.Router.Basic
import HttpRouting.RoutingError

/-!
Registering routes. `Router.register` checks the method first, then the pattern, then whether the
pattern is taken, and reports what it finds.
-/

namespace HttpRouting

/-- The earlier route that subsumes a new pattern. A pattern that a walk resolves is reached in any
case. -/
def MethodRoutes.covering? (t : MethodRoutes) (pattern : Pattern) : Option Route :=
  if pattern.isWalkable then none else t.routes.find? (·.pattern.subsumes pattern)

/-- A registration: why the route was refused, if it was, the state that the call leaves behind, and
the events. -/
structure Registration (σ : Type) where
  refusal? : Option RoutingError
  state : σ
  events : List Event

namespace Router

/-- What a registration reports before the route is added. -/
def registrationNotices (method : Method) (pattern : Pattern) (covering? : Option Route) :
    List Event :=
  (if pattern.repeatedNames = [] then []
    else [.repeatedNames method pattern.text pattern.repeatedNames])
  ++ (covering?.map fun e => Event.unreachable method pattern.text e.text).toList

/-- Adds a route, unless the method has one whose pattern is the same, letter case aside. -/
def add (r : Router) (method : Method) (pattern : Pattern) (handlers : List Handler) :
    Registration Router :=
  let r := r.withMethod method
  let mine := (r.routesOf? method).getD .empty
  if mine.holds pattern then ⟨some (.taken method pattern.text), r, []⟩
  else
    let covering? := mine.covering? pattern
    let unreachable :=
      r.unreachable ++ (covering?.map fun e => ⟨method, pattern.text, e.text⟩).toList
    let notices := registrationNotices method pattern covering?
    match mine.insert ⟨pattern, handlers, r.count⟩ with
    | (mine, some _) =>
      ⟨some (.taken method pattern.text),
        ⟨setRoutes method mine r.methods, r.count, unreachable⟩, notices⟩
    | (mine, none) =>
      ⟨none, ⟨setRoutes method mine r.methods, r.count + 1, unreachable⟩,
        notices ++ [.registered method pattern.text]⟩

/-- Registers handlers for a method and a pattern. -/
def register (r : Router) (method : Method) (pattern : Text) (handlers : List Handler) :
    Registration Router :=
  if method ∈ Method.supported then
    match Pattern.parse pattern with
    | .ok parsed => r.add method parsed handlers
    | .error fault => ⟨some (.malformed pattern fault), r, []⟩
  else ⟨some (.unsupported method), r, []⟩

end Router

end HttpRouting
