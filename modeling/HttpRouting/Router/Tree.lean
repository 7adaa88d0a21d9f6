import HttpRouting.Router.Key
import HttpRouting.Router.Route

/-!
The radix tree of one method's routes. Text that keys share is stored once and split where the keys
part; each wildcard is an edge of its own. `Tree.insert` adds a route, `Tree.lookup` walks a path
and `Tree.routes` lists what is stored.
-/

namespace HttpRouting

mutual

/-- A place in a tree: the edges that go on from it and the route that ends at it. -/
inductive Tree
  | mk (texts : TextEdges) (wilds : WildEdges) (route : Option Route)

/-- Edges for text, each with its fragment. -/
inductive TextEdges
  | nil
  | cons (fragment : Text) (child : Tree) (rest : TextEdges)

/-- Edges for wildcards, each as it is written, in the order of their insertion. -/
inductive WildEdges
  | nil
  | cons (written : Text) (shape : Shape) (child : Tree) (rest : WildEdges)

end

namespace Tree

/-- The tree without routes. -/
def empty : Tree := .mk .nil .nil none

/-- The tree with one more character in front of every key. -/
def push (c : Char) : Tree → Tree
  | .mk (.cons fragment child .nil) .nil none => .mk (.cons (c :: fragment) child .nil) .nil none
  | t => .mk (.cons [c] t .nil) .nil none

/-- The tree of a single route. -/
def single (r : Route) : Key → Tree
  | [] => .mk .nil .nil (some r)
  | .char c :: key => (single r key).push c
  | .wild written shape :: key => .mk .nil (.cons written shape (single r key) .nil) none

/-- The longest common start of a fragment and a key, and what is left of each. -/
def splitCommon : Text → Key → Text × Text × Key
  | f :: fs, .char c :: key =>
    if f = c then
      let (common, fs', key') := splitCommon fs key
      (f :: common, fs', key')
    else ([], f :: fs, .char c :: key)
  | fs, key => ([], fs, key)

/-- The tree of two parting edges: an earlier one for the text `left`, and one for a route. -/
def fork (left : Text) (child : Tree) (r : Route) (key : Key) : Tree :=
  match single r key with
  | .mk texts wilds route => .mk (.cons left child texts) wilds route

/-- The text edges of a tree. -/
def texts : Tree → TextEdges
  | .mk texts _ _ => texts

end Tree

mutual

/-- Adds a route under a key. Beside the tree stands the route that has this key already, if there
is one; the new route is then refused. -/
def Tree.insert (r : Route) : Tree → Key → Tree × Option Route
  | .mk texts wilds (some other), [] => (.mk texts wilds (some other), some other)
  | .mk texts wilds none, [] => (.mk texts wilds (some r), none)
  | .mk texts wilds route, .char c :: key =>
    let (texts, other?) := texts.insert r (.char c :: key)
    (.mk texts wilds route, other?)
  | .mk texts wilds route, .wild written shape :: key =>
    let (wilds, other?) := wilds.insert r written shape key
    (.mk texts wilds route, other?)

/-- Adds a route behind the text edge that starts like the key, or behind a new one. -/
def TextEdges.insert (r : Route) : TextEdges → Key → TextEdges × Option Route
  | .nil, key => ((Tree.single r key).texts, none)
  | .cons fragment child rest, key =>
    match Tree.splitCommon fragment key with
    | ([], _, _) =>
      let (rest, other?) := rest.insert r key
      (.cons fragment child rest, other?)
    | (_, [], key) =>
      let (child, other?) := child.insert r key
      (.cons fragment child rest, other?)
    | (common, left, key) => (.cons common (.fork left child r key) rest, none)

/-- Adds a route behind the wildcard of the given text, or behind a new one. -/
def WildEdges.insert (r : Route) (written : Text) (shape : Shape) :
    WildEdges → Key → WildEdges × Option Route
  | .nil, key => (.cons written shape (.single r key) .nil, none)
  | .cons w s child rest, key =>
    if w = written then
      let (child, other?) := child.insert r key
      (.cons w s child rest, other?)
    else
      let (rest, other?) := rest.insert r written shape key
      (.cons w s child rest, other?)

end

/-- The text up to the next slash, and the rest. -/
def Path.cutSegment (path : Text) : Text × Text :=
  (path.takeWhile (· ≠ '/'), path.dropWhile (· ≠ '/'))

mutual

/-- Follows a path, given in lower case and as it is written, and adds the values of the wildcards
on the way to those captured before. Text goes before wildcards, and a wildcard before those
inserted after it. -/
def Tree.walk : Tree → (path written : Text) → (values : List Text) → Option Route × List Text
  | .mk texts wilds route, path, written, values =>
    if path = [] then (route, values)
    else
      match texts.walk path written values with
      | (some r, values) => (some r, values)
      | (none, values) => wilds.walk path written values

/-- Follows the first text edge that the path starts with. -/
def TextEdges.walk : TextEdges → (path written : Text) → List Text → Option Route × List Text
  | .nil, _, _, values => (none, values)
  | .cons fragment child rest, path, written, values =>
    match Text.dropStart? (· == ·) fragment path with
    | some left => child.walk left (written.drop fragment.length) values
    | none => rest.walk path written values

/-- Tries the parameters that accept the next segment, one after another. The value captured for one
that leads nowhere is taken back. -/
def WildEdges.walk : WildEdges → (path written : Text) → List Text → Option Route × List Text
  | .nil, _, _, values => (none, values)
  | .cons _ shape child rest, path, written, values =>
    let (segment, left) := Path.cutSegment path
    if shape.accepts segment then
      let n := segment.length
      match child.walk left (written.drop n) (values ++ [written.take n]) with
      | (some r, values) => (some r, values)
      | (none, values) => rest.walk path written values.dropLast
    else rest.walk path written values

end

/-- The route that a path leads to, letter case aside, with the values of the wildcards on the way. -/
def Tree.lookup (t : Tree) (path : Text) : Option (Route × List Text) :=
  let (route, values) := t.walk (Text.lower path) path []
  route.map (·, values)

mutual

/-- Every route of a tree: the one that ends here, then those behind text, then those behind
wildcards. -/
def Tree.routes : Tree → List Route
  | .mk texts wilds route => route.toList ++ texts.routes ++ wilds.routes

def TextEdges.routes : TextEdges → List Route
  | .nil => []
  | .cons _ child rest => child.routes ++ rest.routes

def WildEdges.routes : WildEdges → List Route
  | .nil => []
  | .cons _ _ child rest => child.routes ++ rest.routes

end

end HttpRouting
