import HttpRouting.Dict

/-!
The parameters of a matched path, in pattern order. A name may occur more than once; a lookup by
name returns the last value, and `Params.toDict` keeps the same one.
-/

namespace HttpRouting

/-- One captured parameter. -/
structure Param where
  name : Text
  value : Text
  deriving DecidableEq, Repr

/-- Captured parameters in pattern order, repeated names kept. -/
abbrev Params := List Param

namespace Params

/-- One more parameter, behind the others. -/
def push (ps : Params) (name value : Text) : Params := ps ++ [⟨name, value⟩]

/-- The value captured last under a name. -/
def get? (ps : Params) (name : Text) : Option Text :=
  (ps.reverse.find? (·.name = name)).map (·.value)

/-- Each name with the value captured last under it. -/
def toDict (ps : Params) : Dict Text :=
  ps.foldl (fun d p => d.insert p.name p.value) .empty

end Params

end HttpRouting
