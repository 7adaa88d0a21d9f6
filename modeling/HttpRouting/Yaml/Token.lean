import HttpRouting.Text.Basic

/-!
The tokens of a YAML document, and the places in its text.
-/

namespace HttpRouting.Yaml

/-- A place in a text, counted in characters. -/
structure Place where
  index : Nat
  line : Nat
  column : Nat
  deriving DecidableEq, Repr

namespace Place

def start : Place := ⟨0, 0, 0⟩

/-- The place after `count` characters of the same line. -/
def right (p : Place) (count : Nat) : Place := ⟨p.index + count, p.line, p.column + count⟩

/-- The place after a line break of `count` characters. -/
def newline (p : Place) (count : Nat) : Place := ⟨p.index + count, p.line + 1, 0⟩

end Place

/-- One token. Indentation shows as the start and the end of block collections. -/
inductive Token
  | documentStart
  | documentEnd
  | streamEnd
  | blockSequenceStart
  | blockMappingStart
  | blockEnd
  | flowSequenceStart
  | flowSequenceEnd
  | flowMappingStart
  | flowMappingEnd
  | blockEntry
  | flowEntry
  | key
  | value
  /-- A scalar, and whether it was written without quotes. -/
  | scalar (text : Text) (plain : Bool)
  deriving DecidableEq, Repr

/-- Spaces and tabs. -/
def isSpace (c : Char) : Bool := c = ' ' || c = '\t'

/-- Characters that end a line. -/
def isBreak (c : Char) : Bool :=
  c = '\n' || c = '\r' || c = '\x85' || c = '\u2028' || c = '\u2029'

/-- A line break as it is kept in a scalar. -/
def normalBreak (c : Char) : Char := if c = '\u2028' || c = '\u2029' then c else '\n'

/-- Whether a token can end before this text: at a space, at a line break or at the end. -/
def atGap : Text → Bool
  | [] => true
  | c :: _ => isSpace c || isBreak c

/-- Whether a document marker stands here, at the start of a line. -/
def atMarker (place : Place) (t : Text) : Bool :=
  place.column = 0 &&
    match t with
    | '-' :: '-' :: '-' :: rest => atGap rest
    | '.' :: '.' :: '.' :: rest => atGap rest
    | _ => false

/-- Characters that may stand in a document. -/
def isAllowed (c : Char) : Bool :=
  c = '\t' || c = '\n' || c = '\r' || (' ' ≤ c && c ≤ '~') || c = '\x85'
    || ('\xa0' ≤ c && c ≤ '\ufffd') || '\uffff' < c

end HttpRouting.Yaml
