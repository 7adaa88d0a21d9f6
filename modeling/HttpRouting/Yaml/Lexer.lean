import HttpRouting.Yaml.Scalar

/-!
From the text of a document to its tokens. A key shows only at the colon behind it, so the lexer
remembers where a key may have started and puts its token there in retrospect. Directives, anchors,
aliases, tags and block scalars are not read.
-/

namespace HttpRouting.Yaml

/-- A place where a key may have started. -/
structure KeyStart where
  /-- A colon must follow, as nothing but a key can start here. -/
  required : Bool
  /-- The number of tokens before it. -/
  tokens : Nat
  place : Place

/-- A key ends on the line where it started, and within 1024 characters. -/
def KeyStart.reaches (k : KeyStart) (place : Place) : Bool :=
  k.place.line = place.line && place.index ≤ k.place.index + 1024

/-- A lexer in the middle of its text. -/
structure Lexer where
  place : Place
  rest : Text
  /-- The columns of the open block collections, innermost first. -/
  indents : List Nat
  /-- For each open flow collection, and for the block around them, where a key may have started. -/
  keys : List (Option KeyStart)
  /-- Whether a key may start at the next token. -/
  keyAllowed : Bool
  tokens : Array Token

namespace Lexer

def start (t : Text) : Lexer := ⟨.start, t, [], [none], true, #[]⟩

/-- The lexer is inside a flow collection. -/
def inFlow (l : Lexer) : Bool := !l.keys.tail.isEmpty

def emit (l : Lexer) (t : Token) : Lexer := { l with tokens := l.tokens.push t }

/-- Skips characters of the current line. -/
def skip (l : Lexer) (count : Nat) : Lexer :=
  { l with place := l.place.right count, rest := l.rest.drop count }

def setKeyAllowed (l : Lexer) (allowed : Bool) : Lexer := { l with keyAllowed := allowed }

/-- Forgets where a key may have started; fails if it had to be one. -/
def dropKey (l : Lexer) : Option Lexer :=
  match l.keys with
  | some k :: keys => if k.required then none else some { l with keys := none :: keys }
  | _ => some l

/-- Remembers that a key may start here. -/
def saveKey (l : Lexer) : Option Lexer :=
  if l.keyAllowed then do
    let l ← l.dropKey
    let required := !l.inFlow && l.indents.head? = some l.place.column
    return { l with keys := some ⟨required, l.tokens.size, l.place⟩ :: l.keys.tail }
  else some l

/-- Opens a block collection at a column deeper than the current one, its token `before` so many
tokens. -/
def indent (l : Lexer) (column before : Nat) (t : Token) : Lexer :=
  if l.inFlow then l
  else if l.indents.head?.all (· < column) then
    { l with indents := column :: l.indents, tokens := l.tokens.insertIdxIfInBounds before t }
  else l

/-- Closes the block collections deeper than a column; all of them without one. -/
def unindent (l : Lexer) (column : Option Nat) : Lexer :=
  if l.inFlow then l
  else
    let closed := l.indents.takeWhile fun i => column.all (· < i)
    { l with
      indents := l.indents.drop closed.length
      tokens := l.tokens ++ Array.replicate closed.length .blockEnd }

/-- A byte order mark may start a line. It takes up a column. -/
def atByteOrderMark (place : Place) (c : Char) : Bool := place.column = 0 && c = '\ufeff'

/-- Skips white space, comments and line breaks. In a block, a key may start on a new line. -/
def skipGap (l : Lexer) (inComment : Bool) : Place → Text → Bool → Lexer
  | place, [], allowed => { l with place, rest := [], keyAllowed := allowed }
  | place, '\r' :: '\n' :: rest, allowed =>
    skipGap l false (place.newline 2) rest (allowed || !l.inFlow)
  | place, c :: rest, allowed =>
    if isBreak c then skipGap l false (place.newline 1) rest (allowed || !l.inFlow)
    else if inComment then skipGap l true (place.right 1) rest allowed
    else if c = ' ' || (c = '\t' && (l.inFlow || !allowed)) || atByteOrderMark place c then
      skipGap l false (place.right 1) rest allowed
    else if c = '#' then skipGap l true (place.right 1) rest allowed
    else { l with place, rest := c :: rest, keyAllowed := allowed }

/-- A document marker closes all block collections. -/
def marker (l : Lexer) (t : Token) : Option Lexer := do
  let l ← (l.unindent none).dropKey
  return ((l.setKeyAllowed false).emit t).skip 3

def openFlow (l : Lexer) (t : Token) : Option Lexer := do
  let l ← l.saveKey
  return (({ l with keys := none :: l.keys, keyAllowed := true }).emit t).skip 1

def closeFlow (l : Lexer) (t : Token) : Option Lexer := do
  let l ← l.dropKey
  let keys := if l.inFlow then l.keys.tail else l.keys
  return (({ l with keys, keyAllowed := false }).emit t).skip 1

def flowEntry (l : Lexer) : Option Lexer := do
  let l ← l.dropKey
  return ((l.setKeyAllowed true).emit .flowEntry).skip 1

/-- An entry of a block sequence, or the mark of an explicit key. -/
def blockMark (l : Lexer) (opening mark : Token) (allowedAfter : Bool) : Option Lexer :=
  if !l.inFlow && !l.keyAllowed then none
  else do
    let l ← (l.indent l.place.column l.tokens.size opening).dropKey
    return ((l.setKeyAllowed allowedAfter).emit mark).skip 1

/-- A colon behind an absent key, or behind one that was marked as a key. -/
def bareValue (l : Lexer) : Option Lexer :=
  if l.inFlow then some (((l.setKeyAllowed false).emit .value).skip 1)
  else if l.keyAllowed then
    let l := l.indent l.place.column l.tokens.size .blockMappingStart
    some (((l.setKeyAllowed true).emit .value).skip 1)
  else none

/-- A colon. The key before it gets its token, if it reaches this far. -/
def valueMark (l : Lexer) : Option Lexer :=
  match l.keys with
  | some k :: keys =>
    let l := { l with keys := none :: keys }
    if k.reaches l.place then
      let l := { l with tokens := l.tokens.insertIdxIfInBounds k.tokens .key }
      let l := l.indent k.place.column k.tokens .blockMappingStart
      some (((l.setKeyAllowed false).emit .value).skip 1)
    else if k.required then none
    else l.bareValue
  | _ => l.bareValue

/-- Takes over a scalar that was read from here. -/
def takeScalar (l : Lexer) (plain : Bool) (r : Option Scanned) : Option Lexer := do
  let l ← l.saveKey
  let r ← r
  return ({ l with place := r.place, rest := r.rest, keyAllowed := plain && r.brokeLine }).emit
    (.scalar r.text plain)

def quoted (l : Lexer) (double : Bool) (bound : Nat) (rest : Text) : Option Lexer :=
  l.takeScalar false (readQuoted double bound (l.place.right 1) rest)

def plain (l : Lexer) (bound : Nat) : Option Lexer :=
  let indent := match l.indents.head? with
    | some column => column + 1
    | none => 0
  l.takeScalar true (readPlain l.inFlow indent bound l.place l.rest)

/-- Characters that no plain scalar starts with; some of them may if more text follows. -/
def indicators : List Char :=
  ['-', '?', ':', ',', '[', ']', '\x7b', '\x7d', '#', '&', '*', '!', '|', '>', '\x27', '"', '%',
    '@', '\x60']

/-- Reads the next token, the white space before it being skipped. `bound` exceeds the number of
characters left. -/
def token (l : Lexer) (bound : Nat) : Option Lexer :=
  match l.rest with
  | [] => do
    let l ← (l.unindent none).dropKey
    return (l.setKeyAllowed false).emit .streamEnd
  | c :: rest =>
    if atMarker l.place l.rest then l.marker (if c = '-' then .documentStart else .documentEnd)
    else if c = '%' && l.place.column = 0 then none
    else if c = '[' then l.openFlow .flowSequenceStart
    else if c = '\x7b' then l.openFlow .flowMappingStart
    else if c = ']' then l.closeFlow .flowSequenceEnd
    else if c = '\x7d' then l.closeFlow .flowMappingEnd
    else if c = ',' then l.flowEntry
    else if c = '-' && atGap rest then l.blockMark .blockSequenceStart .blockEntry true
    else if c = '?' && (l.inFlow || atGap rest) then
      l.blockMark .blockMappingStart .key (!l.inFlow)
    else if c = ':' && (l.inFlow || atGap rest) then l.valueMark
    else if c = '\x27' then l.quoted false bound rest
    else if c = '"' then l.quoted true bound rest
    else if isSpace c then none
    else if !indicators.contains c || (c = '-' && !(rest.head?.any isSpace))
        || (!l.inFlow && (c = '?' || c = ':') && !atGap rest) then l.plain bound
    else none

/-- Reads tokens up to the end of the text. Each takes at least one character, so that the fuel
stays above the number of characters left. -/
def run : (fuel : Nat) → Lexer → Option (List Token)
  | 0, _ => none
  | fuel + 1, l => do
    let l := l.skipGap false l.place l.rest l.keyAllowed
    let ended := l.rest.isEmpty
    let l ← (l.unindent (some l.place.column)).token (fuel + 1)
    if ended then return l.tokens.toList else run fuel l

end Lexer

/-- The tokens of a document, if it is well-formed so far. -/
def Token.scan (t : Text) : Option (List Token) :=
  if t.all isAllowed then (Lexer.start t).run (t.length + 1) else none

end HttpRouting.Yaml
