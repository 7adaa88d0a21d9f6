import HttpRouting.Router.Listing
import HttpRouting.Router.Resolution

/-!
Reads of a router with all that they leave behind: the fallback tables that they build and the
events that they report. The answers are those of `Router.resolve`, `Router.allowed` and
`Router.fallback?`.
-/

namespace HttpRouting

/-- A read: the answer, the router with the tables that the read built, and the events in the order
in which they were reported. -/
structure Reading (α : Type) where
  answer : α
  router : Router
  events : List Event

/-- The same read with another answer. -/
def Reading.map {α β : Type} (f : α → β) (x : Reading α) : Reading β :=
  ⟨f x.answer, x.router, x.events⟩

namespace Router

/-- A read that builds and reports nothing. -/
def observe {α : Type} (r : Router) (f : Router → α) : Reading α := ⟨f r, r, []⟩

/-- What building the table of a method reports. -/
def buildEventsOf (r : Router) (method : Method) : List Event :=
  (r.routesOf? method).toList.flatMap MethodRoutes.buildEvents

/-- Resolves a path. -/
def read (r : Router) (method : Method) (path : Text) (unescape : Bool) : Reading Resolution :=
  let x := r.resolve method path unescape
  ⟨x, if x.usesFallback then r.build method else r,
    .lookedUp method path :: (if x.usesFallback then r.buildEventsOf method else [])
      ++ x.events method (Path.squeeze path)⟩

/-- Resolves a path for one method after another and keeps those that have a route. -/
def readMethods (path : Text) : List Method → Router → Reading (List Method)
  | [], r => ⟨[], r, []⟩
  | m :: rest, r =>
    let first := r.read m path false
    let others := readMethods path rest first.router
    ⟨if first.answer.isMatch then m :: others.answer else others.answer, others.router,
      first.events ++ others.events⟩

/-- The methods that have a route for a path. -/
def readAllowed (r : Router) (path : Text) : Reading (List Method) :=
  readMethods path Method.supported r

/-- The fallback table of a method. -/
def readFallback (r : Router) (method : Method) : Reading (Option Fallback) :=
  ⟨r.fallback? method, r.build method, r.buildEventsOf method⟩

/-- Builds every table and reports the size of each. -/
def prepare (r : Router) : Reading Unit :=
  ⟨(), r.buildAll,
    r.buildEvents ++ r.methods.map fun (m, t) => .prepared m t.fallback.routes.length⟩

/-- A listing of every tree, in the order of the supported methods. -/
def listing (r : Router) : List Text :=
  Method.supported.flatMap fun m =>
    match r.routesOf? m with
    | none => []
    | some t =>
      ('[' :: m.token ++ "] routes=".toList ++ Nat.toDigits 10 t.routes.length) :: t.tree.listing

end Router

end HttpRouting
