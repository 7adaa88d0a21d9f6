import HttpRouting.Text.Basic

/-!
Route patterns: segments of literal text, parameters and catch-alls. `Pattern.text` writes a pattern
back as it was given.
-/

namespace HttpRouting

/-- What a parameter admits. -/
inductive ParamType
  /-- One or more word characters. -/
  | word
  /-- One or more digits. -/
  | int
  deriving DecidableEq, Repr

namespace ParamType

def admits : ParamType → Char → Bool
  | .word => Text.isWordChar
  | .int => Char.isDigit

/-- Whether a whole segment can be the value of such a parameter. -/
def accepts (type : ParamType) (segment : Text) : Bool :=
  !segment.isEmpty && segment.all type.admits

end ParamType

/-- One lexical piece of a segment. -/
inductive Token
  | literal (text : Text)
  | param (name : Text) (type : ParamType)
  /-- The rest of the path, slashes included. -/
  | catchAll (name : Text)
  deriving DecidableEq, Repr

namespace Token

def isLiteral : Token → Bool
  | .literal _ => true
  | _ => false

/-- The name under which the token captures. -/
def name? : Token → Option Text
  | .literal _ => none
  | .param name _ => some name
  | .catchAll name => some name

/-- The token as a pattern writes it. -/
def text : Token → Text
  | .literal t => t
  | .param name .word => '{' :: name ++ ['}']
  | .param name .int => '{' :: name ++ [':', 'i', 'n', 't', '}']
  | .catchAll name => '*' :: name

end Token

/-- The tokens between two slashes. -/
abbrev Segment := List Token

namespace Segment

def text (s : Segment) : Text := s.flatMap Token.text

def isLiteral (s : Segment) : Bool := s.all Token.isLiteral

/-- The segment is a single parameter. -/
def isParam : Segment → Bool
  | [.param _ _] => true
  | _ => false

/-- The segment is a catch-all. -/
def isCatchAll : Segment → Bool
  | [.catchAll _] => true
  | _ => false

end Segment

/-- A parsed route pattern. -/
structure Pattern where
  segments : List Segment
  deriving DecidableEq, Repr

namespace Pattern

/-- The pattern as it is written: each segment after a slash. -/
def text (p : Pattern) : Text := p.segments.flatMap fun s => '/' :: Segment.text s

/-- Parameter names in the order of their captures. -/
def names (p : Pattern) : List Text := p.segments.flatten.filterMap Token.name?

/-- Goes through names, `seen` being those before and `found` those that were met again. -/
def repeatedIn (seen found : List Text) : List Text → List Text
  | [] => found
  | n :: rest =>
    repeatedIn (seen ++ [n]) (if n ∈ seen ∧ n ∉ found then found ++ [n] else found) rest

/-- Names that occur more than once, each listed once, in the order of their second occurrence. -/
def repeatedNames (p : Pattern) : List Text := repeatedIn [] [] p.names

/-- Whether a walk through the tree can resolve the pattern: each segment is literal text or a
single parameter. -/
def isWalkable (p : Pattern) : Bool :=
  p.segments.all fun s => Segment.isLiteral s || Segment.isParam s

end Pattern

end HttpRouting
