import HttpRouting.Pattern.Basic

/-!
When every path of one pattern is a path of another. `Pattern.subsumes` decides it segment by
segment; on patterns without mixed segments the decision is exact.
-/

namespace HttpRouting

namespace Segment

/-- The text of a segment made of literals alone. -/
def literal? : Segment → Option Text
  | [] => some []
  | .literal t :: rest => (literal? rest).map (t ++ ·)
  | _ :: _ => none

/-- Whether every text of the second segment is one of the first, as far as the tokens alone tell. A
segment that mixes literals with parameters is never found subsumed. -/
def subsumes : Segment → Segment → Bool
  | [.param _ .word], [.param _ _] => true
  | [.param _ .int], [.param _ type] => type = .int
  | [.param _ type], other => (literal? other).any type.accepts
  | mine, theirs =>
    match literal? mine, literal? theirs with
    | some a, some b => Text.lower a = Text.lower b
    | _, _ => false

end Segment

namespace Pattern

/-- The same for lists of segments. A catch-all takes in one or more segments. -/
def segmentsSubsume : List Segment → List Segment → Bool
  | [], theirs => theirs.isEmpty
  | _ :: _, [] => false
  | mine :: ms, theirs :: ts =>
    Segment.isCatchAll mine || (Segment.subsumes mine theirs && segmentsSubsume ms ts)

/-- Whether every path of `q` is a path of `p`. A `false` says only that it could not be shown. -/
def subsumes (p q : Pattern) : Bool := segmentsSubsume p.segments q.segments

end Pattern

end HttpRouting
