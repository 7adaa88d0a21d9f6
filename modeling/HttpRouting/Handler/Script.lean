import HttpRouting.Handler.Query

/-!
Handlers as scripts: what a handler does to its request, one action after another, each of which may
depend on the request as the actions before it left it.
-/

namespace HttpRouting

/-- One action of a handler. -/
inductive Action
  /-- Writes to the log. -/
  | note (n : Note)
  /-- Runs the handlers that have not been started yet. -/
  | next
  /-- Stops the handlers that have not been started yet. -/
  | abort
  | abortWith (status : Nat)
  | setStatus (status : Nat)
  /-- Stores a value for later handlers. -/
  | set (key : Text) (value : Value)
  /-- Attaches an error for later handlers to inspect. -/
  | attach (error : Attached)
  /-- Fails; the message is absent where the failure carries no text. -/
  | fail (message : Option Text)

/-- The course of a handler. -/
inductive Script
  | done
  | act (action : Action) (rest : Script)
  /-- Goes on as the state of the request tells. -/
  | look (choose : Exchange → Script)

/-- A handler or a middleware. -/
abbrev Handler := Script

namespace Script

/-- The script of a single action. -/
def one (action : Action) : Script := .act action .done

/-- One script after the other. -/
def append : Script → Script → Script
  | .done, rest => rest
  | .act action more, rest => .act action (more.append rest)
  | .look choose, rest => .look fun x => (choose x).append rest

/-- Logs the answer to a question. -/
def ask (q : Query) : Script := .look fun x => one (.note (q.answer x))

/-- Attaches the error of reading a parameter as a signed number, if there is one. -/
def checkInt (name : Text) : Script :=
  .look fun x =>
    match x.intParam name with
    | .ok _ => .done
    | .error e => one (.attach (.routing e))

/-- Goes on with the first script if a parameter has the value, otherwise with the second. -/
def ifParam (name value : Text) (yes no : Script) : Script :=
  .look fun x => if x.param name = value then yes else no

/-- Records a name under a key. -/
def recording (key name : Text) : Script := one (.set key (.str name))

end Script

end HttpRouting
