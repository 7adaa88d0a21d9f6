import HttpRouting.Params
import HttpRouting.RequestId
import HttpRouting.Store.Handles
import HttpRouting.Text.Basic

/-!
The state of one request on its way through its handlers, as the handlers see and change it.
-/

namespace HttpRouting

/-- How far the handlers of a request have come. -/
inductive Progress
  /-- None has been started. -/
  | pending
  | running
  /-- One of them stopped the others; none is started any more. -/
  | aborted
  /-- All have been started. -/
  | completed
  deriving DecidableEq, Repr

def Progress.name : Progress → String
  | .pending => "Pending"
  | .running => "Running"
  | .aborted => "Aborted"
  | .completed => "Completed"

/-- An error that was attached for later handlers to inspect. -/
inductive Attached
  | message (text : Text)
  | routing (error : RoutingError)
  /-- A handler failed with this message. -/
  | failure (message : Text)
  deriving DecidableEq, Repr

def Attached.text : Attached → Text
  | .message t => t
  | .routing e => e.message.toList
  | .failure m => "handler panicked: ".toList ++ m

/-- A request being handled. -/
structure Exchange where
  id : RequestId
  method : Method
  /-- The path as received. -/
  path : Text
  /-- The pattern of the matched route. -/
  route : Option Text
  params : Params
  /-- The number of handlers that the request has. -/
  handlerCount : Nat
  progress : Progress
  status : Option Nat
  store : Store
  errors : List Attached

namespace Exchange

/-- A request before its handlers. -/
def new (id : RequestId) (method : Method) (path : Text) (route : Option Text) (params : Params) :
    Exchange where
  id; method; path; route; params
  handlerCount := 0
  progress := .pending
  status := none
  store := .empty
  errors := []

/-- The value of a parameter; an absent one reads as the empty text. -/
def param (x : Exchange) (name : Text) : Text := (x.params.get? name).getD []

/-- A parameter as a signed 64-bit number. -/
def intParam (x : Exchange) (name : Text) : Except RoutingError Int :=
  match Text.int64? (x.param name) with
  | some i => .ok i
  | none => .error (.notNumber name (x.param name))

/-- A parameter as an unsigned 64-bit number. -/
def uintParam (x : Exchange) (name : Text) : Except RoutingError Nat :=
  match Text.uint64? (x.param name) with
  | some n => .ok n
  | none => .error (.notNumber name (x.param name))

def isAborted (x : Exchange) : Bool := x.progress = .aborted

def setStatus (x : Exchange) (status : Nat) : Exchange := { x with status := some status }

/-- Stops the handlers that have not been started. -/
def abort (x : Exchange) : Exchange := { x with progress := .aborted }

/-- Stops the handlers and sets the status of the response. -/
def abortWith (x : Exchange) (status : Nat) : Exchange := (x.setStatus status).abort

/-- Stores a value for later handlers. -/
def set (x : Exchange) (key : Text) (value : Value) : Exchange :=
  { x with store := x.store.insert key value }

def attach (x : Exchange) (e : Attached) : Exchange := { x with errors := x.errors ++ [e] }

end Exchange

end HttpRouting
