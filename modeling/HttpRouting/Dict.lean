import HttpRouting.Text.Basic

/-!
Dictionaries from texts to values, as lists of entries sorted by key. Two dictionaries with the same
entries are the same list, whatever order they were built in.
-/

namespace HttpRouting

/-- Entries with distinct keys, in the order of the keys. -/
structure Dict (α : Type) where
  entries : List (Text × α)
  deriving Repr

namespace Dict

def empty {α : Type} : Dict α := ⟨[]⟩

def insertEntry {α : Type} (key : Text) (value : α) : List (Text × α) → List (Text × α)
  | [] => [(key, value)]
  | (k, v) :: rest =>
    if key = k then (key, value) :: rest
    else if key < k then (key, value) :: (k, v) :: rest
    else (k, v) :: insertEntry key value rest

/-- Sets the value of `key`, replacing an earlier one. -/
def insert {α : Type} (d : Dict α) (key : Text) (value : α) : Dict α :=
  ⟨insertEntry key value d.entries⟩

def get? {α : Type} (d : Dict α) (key : Text) : Option α := d.entries.lookup key

def contains {α : Type} (d : Dict α) (key : Text) : Bool := (d.get? key).isSome

def size {α : Type} (d : Dict α) : Nat := d.entries.length

def ofList {α : Type} (entries : List (Text × α)) : Dict α :=
  entries.foldl (fun d e => d.insert e.1 e.2) empty

end Dict

end HttpRouting
