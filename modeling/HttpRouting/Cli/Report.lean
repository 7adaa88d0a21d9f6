import HttpRouting.Cli.Command
import HttpRouting.Manifest
import HttpRouting.Text.Quoted

/-!
Running a command: the lines that it prints. The answer for each path is reported as one JSON
object.
-/

namespace HttpRouting.Cli

/-- What is reported of one answer. -/
structure Report where
  method : Text
  path : Text
  outcome : String
  status : Nat
  route : Option Text
  handler : Option Text
  params : Dict Text
  location : Option Text
  allow : List Method
  id : Option RequestId

namespace Report

def ofOutcome (method : Method) (path : Text) (x : Outcome) : Report where
  method := method.token
  path
  outcome := x.kind
  status := x.status
  route := x.exchange?.bind (·.route)
  handler := x.exchange?.bind (·.store.str? Manifest.nameKey)
  params := (x.exchange?.map fun x => Params.toDict x.params).getD .empty
  location := x.location?
  allow := x.allow
  id := x.exchange?.map (·.id)

/-- A field that is left out where there is no value. -/
def optional (name : String) (value : Option Text) : List (Text × Text) :=
  (value.map fun v => (name.toList, Text.jsonString v)).toList

/-- The report as a JSON object on one line. Absent values are left out, all but the identifier. -/
def line (r : Report) : Text :=
  Text.jsonObject <|
    [("method".toList, Text.jsonString r.method), ("path".toList, Text.jsonString r.path),
      ("outcome".toList, Text.jsonString r.outcome.toList),
      ("status".toList, Nat.toDigits 10 r.status)]
    ++ optional "route" r.route ++ optional "handler" r.handler
    ++ (if r.params.entries = [] then []
      else [("params".toList, Text.jsonObject (r.params.entries.map fun (k, v) =>
        (k, Text.jsonString v)))])
    ++ optional "location" r.location
    ++ (if r.allow = [] then []
      else [("allow".toList, Text.jsonArray (r.allow.map fun m => Text.jsonString m.token))])
    ++ [("request_id".toList,
      match r.id with
      | some id => Text.jsonString id.text
      | none => "null".toList)]

end Report

/-- The contents of files, by name; none where a file cannot be read. -/
abbrev Files := Text → Option Text

/-- The settings of a file or, without one, of the environment. -/
def loadSettings (files : Files) (env : Environment) : Option Text → Except LoadError Settings
  | none => .ok (.ofEnvironment env)
  | some file =>
    match files file with
    | none => .error (.settingsUnreadable file)
    | some t => (Settings.parse t).mapError fun _ => .settingsInvalid file

def loadManifest (files : Files) (file : Text) : Except LoadError Manifest :=
  match files file with
  | none => .error (.routesUnreadable file)
  | some t => (Manifest.parse t).mapError fun _ => .routesInvalid file

/-- The service of a manifest and the settings. -/
def loadService (files : Files) (env : Environment) (routes : Text) (settings : Option Text) :
    Except LoadError Service := do
  let settings ← loadSettings files env settings
  (← loadManifest files routes).service settings

/-- Answers requests for one path after another, each with an identifier of its own. -/
def reports (method : Method) : Service → (ids : Nat → RequestId) → List Text → List Report
  | _, _, [] => []
  | s, ids, path :: rest =>
    let x := s.respond method path (ids 0)
    .ofOutcome method path x.outcome :: reports method x.service (fun n => ids (n + 1)) rest

/-- The line for an unreachable route. -/
def unreachableLine (u : Unreachable) : Text :=
  "unreachable: ".toList ++ u.method.token ++ ' ' :: u.pattern ++ " (shadowed by ".toList
    ++ u.coveredBy ++ [')']

/-- The lines that a command prints. `ids` are the identifiers of its requests. -/
def Command.run (files : Files) (env : Environment) (ids : Nat → RequestId) :
    Command → Except LoadError (List Text)
  | .list routes settings => do
    let r := (← loadService files env routes settings).router.current
    return r.listing ++ r.unreachable.map unreachableLine
  | .answer routes settings method paths => do
    let s ← loadService files env routes settings
    let method ← Method.parse method
    return (reports method s ids paths).map Report.line

end HttpRouting.Cli
