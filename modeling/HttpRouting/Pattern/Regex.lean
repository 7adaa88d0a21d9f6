import HttpRouting.Pattern.Basic

/-!
The anchored regular expression of a pattern. `Regex.source` writes it and `Regex.capture?` matches
it against a whole path: of all ways to match, the one whose first capture is longest, then its
second, and so on.
-/

namespace HttpRouting

namespace Regex

/-- One item of the expression. Captures are numbered from left to right. -/
inductive Item
  | slash
  /-- ASCII text, letters in either case. -/
  | folded (text : Text)
  /-- Text matched character for character. -/
  | exact (text : Text)
  /-- A capture of one or more characters that a parameter admits. -/
  | run (type : ParamType)
  /-- A capture of any text without a line feed. -/
  | rest
  deriving DecidableEq, Repr

end Regex

/-- The items between the two anchors. -/
abbrev Regex := List Regex.Item

namespace Regex

def isAscii (c : Char) : Bool := c.val < 128

/-- Puts one literal character in front, joining it to a run of its own sort. -/
def consChar (c : Char) : Regex → Regex
  | .folded t :: r => if isAscii c then .folded (c :: t) :: r else .exact [c] :: .folded t :: r
  | .exact t :: r => if isAscii c then .folded [c] :: .exact t :: r else .exact (c :: t) :: r
  | r => if isAscii c then .folded [c] :: r else .exact [c] :: r

def ofToken : Token → Regex
  | .literal t => t.foldr consChar []
  | .param _ type => [.run type]
  | .catchAll _ => [.rest]

def ofSegment (s : Segment) : Regex := .slash :: s.flatMap ofToken

/-- Characters that have a meaning of their own in an expression. -/
def metacharacters : List Char :=
  ['\\', '.', '+', '*', '?', '(', ')', '|', '[', ']', '\x7b', '\x7d', '^', '$', '#', '&', '-', '~']

def escape (t : Text) : Text :=
  t.flatMap fun c => if metacharacters.contains c then ['\\', c] else [c]

def Item.source : Item → Text
  | .slash => ['/']
  | .folded t => "(?-u:".toList ++ escape t ++ [')']
  | .exact t => "(?-i:".toList ++ escape t ++ [')']
  | .run .word => "((?-u:\\w)+)".toList
  | .run .int => "([0-9]+)".toList
  | .rest => "(.*)".toList

/-- The expression in the common syntax, anchored at both ends. -/
def source (r : Regex) : Text := '^' :: r.flatMap Item.source ++ ['$']

/-- From one answer for each ending of a text, longest ending first, the answers for one admitted
character and then the ending behind it. -/
def behind {α β : Type} (admits : Char → Bool) (f : Char → α → β) :
    Text → List (Option α) → List (Option β)
  | c :: t, _ :: later =>
    (if admits c then later.head?.join.map (f c) else none) :: behind admits f t later
  | _, _ => [none]

/-- The answers for a literal text before those for each ending. -/
def behindText {α : Type} (same : Char → Char → Bool) (s t : Text) (next : List (Option α)) :
    List (Option α) :=
  s.foldr (fun a => behind (same a) (fun _ => id) t) next

/-- From the captures at each ending of a text, the longest value of admitted characters that one of
them follows, with those captures. -/
def longest (admits : Char → Bool) :
    Text → List (Option (List Text)) → List (Option (Text × List Text))
  | c :: t, here :: later =>
    let later := longest admits t later
    let here := here.map fun values => ([], values)
    (if admits c then (later.head?.join.map fun (value, values) => (c :: value, values)).or here
      else here) :: later
  | _, next => next.map (·.map fun values => ([], values))

/-- The captures of a match of a text and of each of its endings, longest ending first. Each is
found once, so that the time for a match grows with the product of the two lengths. -/
def captures : Regex → Text → List (Option (List Text))
  | [], t => t.map (fun _ => none) ++ [some []]
  | .slash :: r, t => behindText (· == ·) ['/'] t (captures r t)
  | .folded s :: r, t => behindText Text.sameFolded s t (captures r t)
  | .exact s :: r, t => behindText (· == ·) s t (captures r t)
  | .run type :: r, t =>
    behind type.admits (fun c (value, values) => (c :: value) :: values) t
      (longest type.admits t (captures r t))
  | .rest :: r, t =>
    (longest (· ≠ '\n') t (captures r t)).map (·.map fun (value, values) => value :: values)

/-- The captures of a match of the whole text. Literals at the start are compared first, as most
texts fail there. -/
def capture? : Regex → Text → Option (List Text)
  | .slash :: r, t => (Text.dropStart? (· == ·) ['/'] t).bind (capture? r)
  | .folded s :: r, t => (Text.dropStart? Text.sameFolded s t).bind (capture? r)
  | .exact s :: r, t => (Text.dropStart? (· == ·) s t).bind (capture? r)
  | r, t => (captures r t).head?.join

/-- The longest value of admitted characters at the start of a text that a match of the rest
follows, with the captures of that match. -/
def value? (admits : Char → Bool) (r : Regex) (t : Text) : Option (Text × List Text) :=
  (longest admits t (captures r t)).head?.join

def isMatch (r : Regex) (t : Text) : Bool := (r.capture? t).isSome

end Regex

/-- The expression of a pattern: each segment after a slash. -/
def Pattern.regex (p : Pattern) : Regex := p.segments.flatMap Regex.ofSegment

end HttpRouting
