import HttpRouting.Router.Tree
import HttpRouting.Text.Quoted

/-!
Listings of trees: a line for each place, those behind its edges indented below it.
-/

namespace HttpRouting

namespace Tree

/-- The line for one place: the text that leads to it, the kind of the edge, and its route. -/
def line (depth : Nat) (fragment : Text) (kind : String) (route : Option Route) : Text :=
  List.replicate (2 * depth) ' ' ++ Text.quote fragment ++ " [".toList ++ kind.toList ++ [']']
    ++ match route with
      | some r => " -> ".toList ++ r.text
      | none => []

end Tree

/-- The word for a kind of wildcard. -/
def Shape.kind : Shape → String
  | .catchAll => "catch-all"
  | .param _ | .mixed => "param"

mutual

/-- The lines of a tree that the given text leads to. -/
def Tree.lines (depth : Nat) (fragment : Text) (kind : String) : Tree → List Text
  | .mk texts wilds route =>
    Tree.line depth fragment kind route :: (texts.lines (depth + 1) ++ wilds.lines (depth + 1))

def TextEdges.lines (depth : Nat) : TextEdges → List Text
  | .nil => []
  | .cons fragment child rest => child.lines depth fragment "static" ++ rest.lines depth

def WildEdges.lines (depth : Nat) : WildEdges → List Text
  | .nil => []
  | .cons written shape child rest => child.lines depth written shape.kind ++ rest.lines depth

end

/-- The listing of a whole tree. -/
def Tree.listing (t : Tree) : List Text := t.lines 1 [] "root"

end HttpRouting
