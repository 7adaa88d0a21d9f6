import HttpRouting.Router.Versions
import HttpRouting.Service.Outcome
import HttpRouting.Settings

/-!
Services answer requests: a path is resolved, handlers run, and there is an outcome. Middleware runs
before the handlers of every route registered after it, and before the handlers of requests without
a route.
-/

namespace HttpRouting

/-- Routes, settings and handlers of requests without a route. -/
structure Service where
  router : VersionedRouter
  settings : Settings
  middleware : List Handler
  /-- The handlers of requests that no route matches. -/
  onNotFound : List Handler
  /-- The handlers of requests that match routes of other methods only. -/
  onNotAllowed : List Handler

/-- The answer to a request: the outcome, the service with the tables that the lookups built, and
the events. -/
structure Response where
  outcome : Outcome
  service : Service
  events : List Event

namespace Service

/-- A service over routes that are registered already. -/
def ofRouter (r : Router) (settings : Settings) : Service :=
  ⟨.new r settings.prebuild, settings, [], [], []⟩

def new (settings : Settings) : Service := ofRouter .empty settings

/-- Adds middleware for routes registered from now on and for requests without a route. -/
def addMiddleware (s : Service) (h : Handler) : Service :=
  { s with middleware := s.middleware ++ [h] }

/-- Registers a route; the middleware so far runs before its handlers. -/
def register (s : Service) (method : Method) (pattern : Text) (handlers : List Handler) :
    Registration Service :=
  let x := s.router.register method pattern (s.middleware ++ handlers)
  ⟨x.refusal?, { s with router := x.state }, x.events⟩

/-- What the failure of a handler reports. -/
def failureEvents (r : Run) : List Event :=
  match r.failure with
  | none => []
  | some f => [.handlerFailed (r.exchange.route.getD []) f.text]

/-- The status of a redirect: 301 for GET, and 307 for other methods so that they are kept. -/
def redirectStatus (method : Method) : Nat := if method = .get then 301 else 307

/-- Runs the middleware and the given handlers for a request without a route. -/
def runUnmatched (s : Service) (method : Method) (path : Text) (id : RequestId)
    (handlers : List Handler) (status : Nat) : Run :=
  .guarded ((Exchange.new id method path none []).setStatus status) (s.middleware ++ handlers)

/-- The methods to name to a request that its own method has no route for. -/
def readAllowed (s : Service) (path : Text) : List Method × Service × List Event :=
  if s.settings.reportAllowed then
    let (allowed, router, events) := s.router.read (·.readAllowed path)
    (allowed, { s with router }, events)
  else ([], s, [])

/-- Answers a request that a route matches. -/
def answerMatched (s : Service) (method : Method) (path : Text) (id : RequestId) (route : Route)
    (params : Params) : Response :=
  let r := Run.guarded (.new id method path (some route.text) params) route.handlers
  ⟨.handled r, s,
    failureEvents r ++ [.answered (r.exchange.status.getD 200) r.exchange.isAborted]⟩

/-- Answers a request with a redirect to the path with its trailing slash flipped. -/
def redirect (s : Service) (method : Method) (path : Text) : Response :=
  let location := Path.flipSlash (Path.squeeze path)
  ⟨.redirect location (redirectStatus method), s,
    [.redirecting location (redirectStatus method)]⟩

/-- Answers a request that no route of its method matches. -/
def answerUnmatched (s : Service) (method : Method) (path : Text) (id : RequestId) : Response :=
  let (allowed, s, events) := s.readAllowed path
  match allowed.filter (· ≠ method) with
  | [] =>
    let r := s.runUnmatched method path id s.onNotFound 404
    ⟨.notFound r, s, events ++ [.notFound] ++ failureEvents r⟩
  | allow =>
    let r := s.runUnmatched method path id s.onNotAllowed 405
    ⟨.methodNotAllowed allow r, s, events ++ failureEvents r ++ [.methodNotAllowed allow]⟩

/-- Answers a request as its path is resolved. A CONNECT request is never redirected. -/
def answer (s : Service) (method : Method) (path : Text) (id : RequestId) (x : Resolution) :
    Response :=
  match x.found? with
  | some (route, params) => s.answerMatched method path id route params
  | none =>
    if x.advisesSlash && s.settings.redirectSlash && method ≠ .connect then s.redirect method path
    else s.answerUnmatched method path id

/-- Answers a request. -/
def respond (s : Service) (method : Method) (path : Text) (id : RequestId) : Response :=
  let (x, router, events) := s.router.read (·.read method path s.settings.unescape)
  let response := { s with router }.answer method path id x
  { response with events := events ++ response.events }

/-- The span in which the events of an answer are reported. -/
def span : String := "dispatch"

end Service

end HttpRouting
