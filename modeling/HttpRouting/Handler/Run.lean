import HttpRouting.Handler.Script

/-!
Running the handlers of a request. A handler may run the others from within, stop them, or fail;
each is started at most once, in order. `Run.next` starts those that are left and `Run.guarded`
turns a failure into an aborted request with status 500.
-/

namespace HttpRouting

/-- The failure of a handler, with its message if it carries one. -/
structure Failure where
  message : Option Text
  deriving DecidableEq, Repr

/-- The message of a failure, as it is reported. -/
def Failure.text (f : Failure) : Text := f.message.getD "unknown panic".toList

/-- A request and its handlers, the log so far and, once a handler has failed, the failure. -/
structure Run where
  exchange : Exchange
  handlers : List Handler
  /-- The number of handlers started so far. -/
  started : Nat
  log : List Note
  failure : Option Failure

namespace Run

/-- A request of which no handler has been started. -/
def start (x : Exchange) (handlers : List Handler) : Run :=
  ⟨{ x with handlerCount := handlers.length }, handlers, 0, [], none⟩

def update (r : Run) (f : Exchange → Exchange) : Run := { r with exchange := f r.exchange }

end Run

/-- Performs one action; `next` runs the handlers that are left. -/
def Action.perform (next : Run → Run) (r : Run) : Action → Run
  | .note n => { r with log := r.log ++ [n] }
  | .next => next r
  | .abort => r.update Exchange.abort
  | .abortWith status => r.update (·.abortWith status)
  | .setStatus status => r.update (·.setStatus status)
  | .set key value => r.update (·.set key value)
  | .attach e => r.update (·.attach e)
  | .fail message => { r with failure := some ⟨message⟩ }

/-- Performs the actions of a script in order, up to a failure. -/
def Script.run (next : Run → Run) : Script → Run → Run
  | .done, r => r
  | .act action rest, r =>
    let r := action.perform next r
    if r.failure.isSome then r else rest.run next r
  | .look choose, r => (choose r.exchange).run next r

namespace Run

/-- Marks a request as running if it was pending. -/
def begin (r : Run) : Run :=
  if r.exchange.progress = .pending then r.update ({ · with progress := .running }) else r

/-- Counts one more handler as started. -/
def advance (r : Run) : Run := { r with started := r.started + 1 }

/-- Starts handlers while the request is running. `left` bounds the number of handlers to start. -/
def drain (left : Nat) (r : Run) : Run :=
  if r.exchange.progress = .running then
    match r.handlers[r.started]? with
    | none => r.update ({ · with progress := .completed })
    | some h =>
      match left with
      | 0 => r
      | left + 1 =>
        let r := h.run (fun r => drain left r.begin) r.advance
        if r.failure.isSome then r else drain left r
  else r

/-- Runs the handlers that have not been started yet. -/
def next (r : Run) : Run := drain (r.handlers.length - r.started) r.begin

/-- Performs a script from outside, with a log of its own and past failures forgotten. -/
def step (r : Run) (s : Script) : Run := s.run next { r with log := [], failure := none }

/-- Records a failure in the request: an error, the status 500 and the end of its handlers. -/
def recover (r : Run) : Run :=
  match r.failure with
  | none => r
  | some f => r.update fun x => (x.attach (.failure f.text)).abortWith 500

/-- Runs the handlers of a request to their end, or to a failure. -/
def guarded (x : Exchange) (handlers : List Handler) : Run := (start x handlers).next.recover

end Run

end HttpRouting
