import HttpRouting.Router.Tree
import HttpRouting.Text.Utf8

/-!
The tree by bytes. A pattern is added piece by piece, and texts are cut at numbers of bytes; a walk
cuts a path in lower case and the path as it is written at the same ones. There is no result if a
character would be cut.
-/

namespace HttpRouting

/-- A piece of a pattern. -/
inductive Piece
  /-- Text, which may reach over several segments. -/
  | text (t : Text)
  /-- A whole segment that is not literal, as it is written. -/
  | wild (written : Text) (shape : Shape)
  deriving DecidableEq, Repr

/-- The pieces of segments, the first of which stands behind some text. -/
def Segment.pieces (before : Text) : List Segment → List Piece
  | [] => if before = [] then [] else [.text before]
  | s :: ss =>
    if isLiteral s then pieces (before ++ '/' :: Text.lower (text s)) ss
    else .text (before ++ ['/']) :: .wild (Text.lower (text s)) (shape s) :: pieces [] ss

/-- The pieces of a pattern, in lower case. -/
def Pattern.pieces (p : Pattern) : List Piece := Segment.pieces [] p.segments

/-! ## Insertion -/

/-- An edge whose text ends behind the given number of bytes: if it is longer, the rest becomes an
edge of its own. -/
def TextEdges.splitAt? (fragment : Text) (child : Tree) (n : Nat) : Option (Text × Tree) :=
  if n < fragment.utf8Size then do
    let (front, back) ← fragment.cut? n
    return (front, .mk (.cons back child .nil) .nil none)
  else some (fragment, child)

/-- Goes on behind the edge that starts with the same character as the text, with what is left of
the text, or behind a new edge for all of it. A new edge is kept if the route is not refused. -/
def TextEdges.alter? (next : Tree → Text → Option (Tree × Option Route)) (text : Text) :
    TextEdges → Option (TextEdges × Option Route)
  | .nil => do
    let (child, other?) ← next Tree.empty []
    return if other?.isNone then (.cons text child .nil, none) else (.nil, other?)
  | .cons fragment child rest =>
    if fragment.head? = text.head? then do
      let n := Text.commonPrefixSize fragment text
      let (fragment, child) ← splitAt? fragment child n
      let (_, left) ← text.cut? n
      let (child, other?) ← next child left
      return (.cons fragment child rest, other?)
    else do
      let (rest, other?) ← rest.alter? next text
      return (.cons fragment child rest, other?)

/-- Goes on behind the wildcard of the given text, or behind a new one. -/
def WildEdges.alter? (next : Tree → Option (Tree × Option Route)) (written : Text) (shape : Shape) :
    WildEdges → Option (WildEdges × Option Route)
  | .nil => do
    let (child, other?) ← next Tree.empty
    return if other?.isNone then (.cons written shape child .nil, none) else (.nil, other?)
  | .cons w s child rest =>
    if w = written then do
      let (child, other?) ← next child
      return (.cons w s child rest, other?)
    else do
      let (rest, other?) ← rest.alter? next written shape
      return (.cons w s child rest, other?)

/-- Adds a route behind a text and the pieces after it, in at most the given number of steps. -/
def Tree.insertBytes? (r : Route) : Nat → Tree → Text → List Piece → Option (Tree × Option Route)
  | 0, _, _, _ => none
  | _ + 1, .mk texts wilds (some other), [], [] => some (.mk texts wilds (some other), some other)
  | _ + 1, .mk texts wilds none, [], [] => some (.mk texts wilds (some r), none)
  | n + 1, t, [], .text text :: rest => insertBytes? r n t text rest
  | n + 1, .mk texts wilds route, [], .wild written shape :: rest => do
    let (wilds, other?) ← wilds.alter? (insertBytes? r n · [] rest) written shape
    return (.mk texts wilds route, other?)
  | n + 1, .mk texts wilds route, c :: text, rest => do
    let (texts, other?) ← texts.alter? (insertBytes? r n · · rest) (c :: text)
    return (.mk texts wilds route, other?)

/-! ## The walk -/

/-- The number of bytes in front of the next slash, or of all bytes. -/
def Path.segmentSize (path : Text) : Nat := (path.utf8.takeWhile (· ≠ 0x2F)).length

mutual

/-- Follows a path in lower case and cuts the path as it is written in lock-step. -/
def Tree.walkBytes? : Tree → (path written : Text) → List Text → Option (Option Route × List Text)
  | .mk texts wilds route, path, written, values =>
    if path = [] then some (route, values)
    else do
      match ← texts.walkBytes? path written values with
      | (some r, values) => return (some r, values)
      | (none, values) => wilds.walkBytes? path written values

def TextEdges.walkBytes? :
    TextEdges → (path written : Text) → List Text → Option (Option Route × List Text)
  | .nil, _, _, values => some (none, values)
  | .cons fragment child rest, path, written, values =>
    if fragment.utf8.isPrefixOf path.utf8 then do
      let (_, path) ← path.cut? fragment.utf8Size
      let (_, written) ← written.cut? fragment.utf8Size
      child.walkBytes? path written values
    else rest.walkBytes? path written values

def WildEdges.walkBytes? :
    WildEdges → (path written : Text) → List Text → Option (Option Route × List Text)
  | .nil, _, _, values => some (none, values)
  | .cons _ shape child rest, path, written, values => do
    let n := Path.segmentSize path
    let (segment, path') ← path.cut? n
    if shape.accepts segment then
      let (value, written') ← written.cut? n
      match ← child.walkBytes? path' written' (values ++ [value]) with
      | (some r, values) => return (some r, values)
      | (none, values) => rest.walkBytes? path written values.dropLast
    else rest.walkBytes? path written values

end

end HttpRouting
