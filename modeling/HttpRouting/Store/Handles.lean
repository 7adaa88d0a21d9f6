import HttpRouting.RoutingError
import HttpRouting.Store.Value

/-!
Stores of values by key, and handles on them. A value is read as it is, as one of a kind, or as one
that has to be there. Cloning a handle gives another one on the same store, so that what is set
through one is read through the other; a new store has a handle of its own.
-/

namespace HttpRouting

/-- The values of one request, by key. -/
abbrev Store := Dict Value

namespace Store

/-- The value of a key, or the error that it was never set. -/
def require (s : Store) (key : Text) : Except RoutingError Value :=
  match s.get? key with
  | some v => .ok v
  | none => .error (.unset key)

/-- Whether two keys have the same value, or neither has one. -/
def agree (s : Store) (key other : Text) : Bool :=
  match s.get? key, s.get? other with
  | none, none => true
  | some a, some b => a.same b
  | _, _ => false

def str? (s : Store) (key : Text) : Option Text := (s.get? key).bind Value.str?

def bool? (s : Store) (key : Text) : Option Bool := (s.get? key).bind Value.bool?

def int? (s : Store) (key : Text) : Option Int64 := (s.get? key).bind Value.int?

def uint? (s : Store) (key : Text) : Option UInt64 := (s.get? key).bind Value.uint?

def float? (s : Store) (key : Text) : Option Float := (s.get? key).bind Value.float?

def time? (s : Store) (key : Text) : Option Timespan := (s.get? key).bind Value.time?

def duration? (s : Store) (key : Text) : Option Timespan := (s.get? key).bind Value.duration?

def strs? (s : Store) (key : Text) : Option (List Text) := (s.get? key).bind Value.strs?

def strMap? (s : Store) (key : Text) : Option (Dict Text) := (s.get? key).bind Value.strMap?

def strsMap? (s : Store) (key : Text) : Option (Dict (List Text)) :=
  (s.get? key).bind Value.strsMap?

def map? (s : Store) (key : Text) : Option (Dict Value) := (s.get? key).bind Value.map?

end Store

/-- Stores, and for each handle the number of its store. -/
structure StoreHandles where
  stores : List Store
  handles : List Nat

namespace StoreHandles

/-- One empty store with one handle. -/
def initial : StoreHandles := ⟨[.empty], [0]⟩

/-- The store of a handle, if there is such a handle. -/
def store? (k : StoreHandles) (handle : Nat) : Option Store := do
  k.stores[← k.handles[handle]?]?

/-- A further handle on the store of a handle. -/
def clone (k : StoreHandles) (handle : Nat) : StoreHandles :=
  { k with handles := k.handles ++ (k.handles[handle]?).toList }

/-- A handle on a new store. -/
def new (k : StoreHandles) : StoreHandles :=
  ⟨k.stores ++ [.empty], k.handles ++ [k.stores.length]⟩

/-- Sets a value in the store of a handle. -/
def set (k : StoreHandles) (handle : Nat) (key : Text) (value : Value) : StoreHandles :=
  match k.handles[handle]? with
  | some i => { k with stores := k.stores.modify i (·.insert key value) }
  | none => k

end StoreHandles

end HttpRouting
