import HttpRouting.Router.Reading
import HttpRouting.Router.Registration

/-!
A router that gains routes while it is read. Every change publishes a new version, and every earlier
version stays as it was: a reader that keeps a version keeps its answers. Reads may build fallback
tables in the version that they read, nothing else.
-/

namespace HttpRouting

/-- The published versions of a router. -/
structure VersionedRouter where
  /-- Whether fallback tables are built before a version is published. -/
  prebuild : Bool
  /-- The versions before the current one, oldest first. -/
  earlier : List Router
  current : Router

namespace VersionedRouter

/-- The number of the current version; the first has number 0. -/
def version (v : VersionedRouter) : Nat := v.earlier.length

/-- The router of a version. -/
def at? (v : VersionedRouter) (version : Nat) : Option Router :=
  if version = v.version then some v.current else v.earlier[version]?

/-- Puts a router, with the tables that a read has built, back in its place. -/
def setAt (v : VersionedRouter) (version : Nat) (r : Router) : VersionedRouter :=
  if version = v.version then { v with current := r }
  else { v with earlier := v.earlier.set version r }

/-- The router as it is published. -/
def ready (prebuild : Bool) (r : Router) : Router := if prebuild then r.buildAll else r

/-- What getting a router ready reports. -/
def readyEvents (prebuild : Bool) (r : Router) : List Event :=
  if prebuild then r.buildEvents else []

/-- The first version. -/
def new (r : Router) (prebuild : Bool) : VersionedRouter := ⟨prebuild, [], ready prebuild r⟩

/-- Makes a router the current version. -/
def publish (v : VersionedRouter) (r : Router) : VersionedRouter :=
  ⟨v.prebuild, v.earlier ++ [v.current], ready v.prebuild r⟩

/-- Registers a route in a new version. If it is refused, nothing is published. -/
def register (v : VersionedRouter) (method : Method) (pattern : Text) (handlers : List Handler) :
    Registration VersionedRouter :=
  let x := v.current.register method pattern handlers
  match x.refusal? with
  | some refusal => ⟨some refusal, v, x.events⟩
  | none => ⟨none, v.publish x.state, x.events ++ readyEvents v.prebuild x.state⟩

/-- Publishes another router in place of the current one. -/
def replace (v : VersionedRouter) (r : Router) : VersionedRouter × List Event :=
  (v.publish r, readyEvents v.prebuild r ++ [.replaced r.routes.length])

/-- Reads a version; none if there is no such version. -/
def read? {α : Type} (v : VersionedRouter) (version : Nat) (f : Router → Reading α) :
    Option (α × VersionedRouter × List Event) :=
  (v.at? version).map fun r =>
    let x := f r
    (x.answer, v.setAt version x.router, x.events)

/-- Reads the current version. -/
def read {α : Type} (v : VersionedRouter) (f : Router → Reading α) :
    α × VersionedRouter × List Event :=
  let x := f v.current
  (x.answer, { v with current := x.router }, x.events)

end VersionedRouter

end HttpRouting
