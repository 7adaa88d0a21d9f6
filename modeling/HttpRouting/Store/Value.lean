import HttpRouting.Dict

/-!
Values that handlers hand to one another. A value is one of eleven kinds, each with a reader that
takes values of this kind and no others.
-/

namespace HttpRouting

/-- A span of time in whole seconds and a part of a second. -/
structure Timespan where
  seconds : Nat
  nanos : Nat
  deriving DecidableEq, Repr

/-- The span of so many seconds and nanoseconds, whole seconds carried over. -/
def Timespan.of (seconds nanos : Nat) : Timespan :=
  ⟨seconds + nanos / 1000000000, nanos % 1000000000⟩

/-- A stored value. -/
inductive Value
  | str (s : Text)
  | bool (b : Bool)
  | int (i : Int64)
  | uint (n : UInt64)
  | float (x : Float)
  /-- A moment, as the time since the Unix epoch. -/
  | time (sinceEpoch : Timespan)
  | duration (d : Timespan)
  | strs (l : List Text)
  | strMap (d : Dict Text)
  | strsMap (d : Dict (List Text))
  | map (d : Dict Value)

namespace Value

mutual

/-- Same kind and same value. Floats compare as numbers, so a NaN differs from itself. -/
def same : Value → Value → Bool
  | .str a, .str b => a == b
  | .bool a, .bool b => a == b
  | .int a, .int b => a == b
  | .uint a, .uint b => a == b
  | .float a, .float b => a == b
  | .time a, .time b => a == b
  | .duration a, .duration b => a == b
  | .strs a, .strs b => a == b
  | .strMap a, .strMap b => a.entries == b.entries
  | .strsMap a, .strsMap b => a.entries == b.entries
  | .map ⟨a⟩, .map ⟨b⟩ => sameEntries a b
  | _, _ => false

def sameEntries : List (Text × Value) → List (Text × Value) → Bool
  | [], [] => true
  | (k, a) :: as, (l, b) :: bs => k == l && same a b && sameEntries as bs
  | _, _ => false

end

def str? : Value → Option Text
  | .str v => some v
  | _ => none

def bool? : Value → Option Bool
  | .bool v => some v
  | _ => none

def int? : Value → Option Int64
  | .int v => some v
  | _ => none

def uint? : Value → Option UInt64
  | .uint v => some v
  | _ => none

def float? : Value → Option Float
  | .float v => some v
  | _ => none

def time? : Value → Option Timespan
  | .time v => some v
  | _ => none

def duration? : Value → Option Timespan
  | .duration v => some v
  | _ => none

def strs? : Value → Option (List Text)
  | .strs v => some v
  | _ => none

def strMap? : Value → Option (Dict Text)
  | .strMap v => some v
  | _ => none

def strsMap? : Value → Option (Dict (List Text))
  | .strsMap v => some v
  | _ => none

def map? : Value → Option (Dict Value)
  | .map v => some v
  | _ => none

end Value

end HttpRouting
