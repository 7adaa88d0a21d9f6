import HttpRouting.Handler.Exchange

/-!
What handlers ask of a request, and the notes that they write to the log.
-/

namespace HttpRouting

/-- What a handler writes to the log. -/
inductive Note
  /-- What the handler supplies itself, in a notation that the log leaves alone. -/
  | literal (t : Text)
  | text (t : Text)
  | optionalText (t : Option Text)
  | value (v : Option Value)
  | error (e : RoutingError)
  | params (ps : Params)
  | int (i : Int)
  | uint (n : Nat)
  | progress (p : Progress)
  | flag (b : Bool)
  | status (s : Option Nat)
  | texts (ts : List Text)
  | count (n : Nat)

/-- The note of a read that may fail. -/
def Note.ofExcept {α : Type} (f : α → Note) : Except RoutingError α → Note
  | .ok a => f a
  | .error e => .error e

/-- A question about a request. -/
inductive Query
  | value (key : Text)
  /-- The value of a key that has to be set. -/
  | required (key : Text)
  | param (name : Text)
  | params
  | intParam (name : Text)
  | uintParam (name : Text)
  | progress
  | isAborted
  | status
  | errors
  | method
  | path
  | route
  | handlerCount
  deriving DecidableEq, Repr

namespace Query

/-- The answer, as it is logged. -/
def answer (x : Exchange) : Query → Note
  | .value key => .value (x.store.get? key)
  | .required key => .ofExcept (.value ∘ some) (x.store.require key)
  | .param name => .text (x.param name)
  | .params => .params x.params
  | .intParam name => .ofExcept .int (x.intParam name)
  | .uintParam name => .ofExcept .uint (x.uintParam name)
  | .progress => .progress x.progress
  | .isAborted => .flag x.isAborted
  | .status => .status x.status
  | .errors => .texts (x.errors.map (·.text))
  | .method => .text x.method.token
  | .path => .text x.path
  | .route => .optionalText x.route
  | .handlerCount => .count x.handlerCount

end Query

end HttpRouting
