import HttpRouting.Pattern.Basic

/-!
The key under which a pattern is kept in a tree: its characters in lower case, with a wildcard for
each segment that is not literal.
-/

namespace HttpRouting

/-- How a walk treats a wildcard. -/
inductive Shape
  | param (type : ParamType)
  | catchAll
  /-- Literal text mixed with parameters; only a regular expression can match it. -/
  | mixed
  deriving DecidableEq, Repr

/-- Whether a walk may take a segment for the wildcard. -/
def Shape.accepts : Shape → Text → Bool
  | .param type => type.accepts
  | .catchAll | .mixed => fun _ => false

/-- One step of a key. -/
inductive Symbol
  | char (c : Char)
  /-- A whole segment that is not literal, as it is written. -/
  | wild (written : Text) (shape : Shape)
  deriving DecidableEq, Repr

/-- Where a route is kept in a tree. -/
abbrev Key := List Symbol

namespace Segment

def shape : Segment → Shape
  | [.param _ type] => .param type
  | [.catchAll _] => .catchAll
  | _ => .mixed

/-- The key of one segment: the characters of literal text, or one wildcard. -/
def key (s : Segment) : Key :=
  if isLiteral s then (Text.lower (text s)).map .char else [.wild (Text.lower (text s)) (shape s)]

end Segment

/-- The key of a pattern, each segment after a slash. -/
def Pattern.key (p : Pattern) : Key := p.segments.flatMap fun s => .char '/' :: Segment.key s

end HttpRouting
