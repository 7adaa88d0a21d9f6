import HttpRouting.LoadError
import HttpRouting.Service.Basic
import HttpRouting.Yaml.Node

/-!
Files of settings and of routes. A manifest lists a method, a pattern and the name of a handler for
each route; `Manifest.service` registers them in order and stops at the first that is refused.
-/

namespace HttpRouting

namespace Settings

/-- The switches of a document; those that are left out keep their defaults. -/
def ofNode? (n : Yaml.Node) : Option Settings := do
  let fields ← n.fields? ["redirect_trailing_slash", "handle_method_not_allowed",
    "unescape_path_values", "precompile"]
  let switch (name : String) (default : Bool) : Option Bool :=
    match fields.lookup name with
    | some value => value.bool?
    | none => some default
  let default : Settings := {}
  return {
    redirectSlash := ← switch "redirect_trailing_slash" default.redirectSlash
    reportAllowed := ← switch "handle_method_not_allowed" default.reportAllowed
    unescape := ← switch "unescape_path_values" default.unescape
    prebuild := ← switch "precompile" default.prebuild }

/-- Reads the text of a settings file. A blank one gives the defaults. -/
def parse (t : Text) : Except LoadError Settings :=
  if Text.trim t = [] then .ok {}
  else
    match (Yaml.Node.parse t).bind ofNode? with
    | some settings => .ok settings
    | none => .error .settingsSyntax

end Settings

namespace Manifest

/-- One route of a manifest. -/
structure Entry where
  method : Text
  pattern : Text
  handler : Text
  deriving DecidableEq, Repr

def Entry.ofNode? (n : Yaml.Node) : Option Entry := do
  let fields ← n.fields? ["method", "pattern", "handler"]
  return ⟨← (← fields.lookup "method").text?, ← (← fields.lookup "pattern").text?,
    ← (← fields.lookup "handler").text?⟩

end Manifest

/-- Routes to register, in order. -/
structure Manifest where
  entries : List Manifest.Entry
  deriving DecidableEq, Repr

namespace Manifest

def ofNode? (n : Yaml.Node) : Option Manifest := do
  let fields ← n.fields? ["routes"]
  match fields.lookup "routes" with
  | none => return ⟨[]⟩
  | some list => return ⟨← (← list.items?).mapM Entry.ofNode?⟩

/-- Reads the text of a manifest. -/
def parse (t : Text) : Except LoadError Manifest :=
  match (Yaml.Node.parse t).bind ofNode? with
  | some m => .ok m
  | none => .error .routesSyntax

/-- The key under which the handler of a route records its name. -/
def nameKey : Text := ['h', 'a', 'n', 'd', 'l', 'e', 'r']

/-- Registers one entry. Its handler records its name. -/
def add (s : Service) (e : Entry) : Except LoadError Service :=
  match Method.parse e.method with
  | .error err => .error err
  | .ok method =>
    let x := s.register method e.pattern [.recording nameKey e.handler]
    match x.refusal? with
    | none => .ok x.state
    | some cause => .error (.refused e.method e.pattern cause)

/-- A service with every route of the manifest, or the error of the first that is refused. -/
def service (m : Manifest) (settings : Settings) : Except LoadError Service :=
  m.entries.foldlM add (.new settings)

end Manifest

end HttpRouting
