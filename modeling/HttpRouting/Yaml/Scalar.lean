import HttpRouting.Yaml.Token

/-!
Reading scalars. A scalar may go on over several lines: one line break between words counts as a
space, and of several line breaks the first is dropped.
-/

namespace HttpRouting.Yaml

/-- The white space between two words of a scalar. -/
structure Gap where
  /-- Spaces and tabs before the first line break. -/
  spaces : Text := []
  /-- A line break was met, so that further spaces are indentation. -/
  folded : Bool := false
  firstBreak : Option Char := none
  moreBreaks : Text := []

namespace Gap

def addSpace (g : Gap) (c : Char) : Gap :=
  if g.folded then g else { g with spaces := g.spaces ++ [c] }

def addBreak (g : Gap) (c : Char) : Gap :=
  if g.folded then { g with moreBreaks := g.moreBreaks ++ [c] }
  else { g with folded := true, firstBreak := some c }

/-- What the gap contributes to the scalar. -/
def text (g : Gap) : Text :=
  if g.folded then
    match g.firstBreak with
    | some '\n' => if g.moreBreaks = [] then [' '] else g.moreBreaks
    | some c => c :: g.moreBreaks
    | none => g.moreBreaks
  else g.spaces

/-- Reads spaces and line breaks. A tab within the first `indent` columns of a line is refused. -/
def read (indent : Nat) (place : Place) (g : Gap) : Text → Option (Gap × Place × Text)
  | [] => some (g, place, [])
  | '\r' :: '\n' :: rest => read indent (place.newline 2) (g.addBreak '\n') rest
  | c :: rest =>
    if isSpace c then
      if g.folded && c = '\t' && place.column < indent then none
      else read indent (place.right 1) (g.addSpace c) rest
    else if isBreak c then read indent (place.newline 1) (g.addBreak (normalBreak c)) rest
    else some (g, place, c :: rest)

end Gap

/-- A scalar that was read: its text, whether it was followed by a line break, and what is left. -/
structure Scanned where
  text : Text
  brokeLine : Bool
  place : Place
  rest : Text

/-- The same scalar with more text in front. -/
def Scanned.behind (r : Scanned) (start : Text) : Scanned := { r with text := start ++ r.text }

/-! ### Plain scalars -/

/-- Characters that end a plain scalar inside a flow collection. -/
def flowIndicators : List Char := [',', '[', ']', '\x7b', '\x7d']

/-- Reads a plain scalar up to white space or a character that ends it. Inside a flow collection a
colon right before an indicator is refused. -/
def plainWord (inFlow : Bool) : Text → Option (Text × Text)
  | [] => some ([], [])
  | c :: rest =>
    if isSpace c || isBreak c then some ([], c :: rest)
    else if inFlow && c = ':' && (rest.head?.any fun d => d = '?' || flowIndicators.contains d) then
      none
    else if (c = ':' && atGap rest) || (inFlow && flowIndicators.contains c) then
      some ([], c :: rest)
    else (plainWord inFlow rest).map fun (word, rest) => (c :: word, rest)

/-- Reads the words of a plain scalar, the first of them behind a gap. Outside a flow collection
each further line must be indented by `indent`. -/
def plainWords (inFlow : Bool) (indent : Nat) :
    (fuel : Nat) → Gap → Place → Text → Option Scanned
  | 0, _, _, _ => none
  | fuel + 1, gap, place, rest => do
    if atMarker place rest || rest.head? = some '#' then
      return ⟨[], gap.folded, place, rest⟩
    let (word, left) ← plainWord inFlow rest
    let place := place.right word.length
    let (start, gap) := if word = [] then ([], gap) else (gap.text ++ word, {})
    match left with
    | [] => return ⟨start, gap.folded, place, left⟩
    | c :: _ =>
      if !(isSpace c || isBreak c) then return ⟨start, gap.folded, place, left⟩
      else
        let (gap, place, left) ← Gap.read indent place gap left
        if !inFlow && place.column < indent then return ⟨start, gap.folded, place, left⟩
        else return (← plainWords inFlow indent fuel gap place left).behind start

/-- Reads a plain scalar. `bound` exceeds the length of the text. -/
def readPlain (inFlow : Bool) (indent bound : Nat) (place : Place) (t : Text) : Option Scanned :=
  plainWords inFlow indent bound {} place t

/-! ### Quoted scalars -/

/-- The value of a run of hexadecimal digits. -/
def hexValue? (t : Text) : Option Nat :=
  t.foldlM (fun n c =>
    if c.isDigit then some (16 * n + (c.toNat - 48))
    else if 'a' ≤ c && c ≤ 'f' then some (16 * n + (c.toNat - 87))
    else if 'A' ≤ c && c ≤ 'F' then some (16 * n + (c.toNat - 55))
    else none) 0

/-- The character of a code point written in `width` hexadecimal digits. -/
def codePoint? (width : Nat) (t : Text) : Option Char :=
  if t.length < width then none
  else do
    let n ← hexValue? (t.take width)
    if h : n.isValidChar then return Char.ofNatAux n h else none

/-- The character that a letter after a backslash stands for, where that is a single one. -/
def escaped? (c : Char) : Option Char :=
  match c with
  | '0' => some '\x00'
  | 'a' => some '\x07'
  | 'b' => some '\x08'
  | 't' => some '\t'
  | '\t' => some '\t'
  | 'n' => some '\n'
  | 'v' => some '\x0b'
  | 'f' => some '\x0c'
  | 'r' => some '\r'
  | 'e' => some '\x1b'
  | ' ' => some ' '
  | '"' => some '"'
  | '/' => some '/'
  | '\\' => some '\\'
  | 'N' => some '\x85'
  | '_' => some '\xa0'
  | 'L' => some '\u2028'
  | 'P' => some '\u2029'
  | _ => none

/-- The number of hexadecimal digits that follow a letter after a backslash. -/
def codeWidth? (c : Char) : Option Nat :=
  match c with
  | 'x' => some 2
  | 'u' => some 4
  | 'U' => some 8
  | _ => none

/-- Reads a quoted scalar up to white space or the closing quote. The flag tells whether it ended in
an escaped line break, which is dropped. -/
def quotedWord (double : Bool) :
    (fuel : Nat) → Place → Text → Option (Text × Bool × Place × Text)
  | 0, _, _ => none
  | fuel + 1, place, t =>
    let char (c : Char) (count : Nat) (rest : Text) :=
      (quotedWord double fuel (place.right count) rest).map
        fun (word, more) => (c :: word, more)
    match t with
    | [] => some ([], false, place, [])
    | c :: rest =>
      if isSpace c || isBreak c then some ([], false, place, t)
      else if !double && c = '\x27' then
        match rest with
        | '\x27' :: rest => char '\x27' 2 rest
        | _ => some ([], false, place, t)
      else if double && c = '"' then some ([], false, place, t)
      else if double && c = '\\' then
        match rest with
        | '\r' :: '\n' :: rest => some ([], true, place.newline 3, rest)
        | d :: rest =>
          if isBreak d then some ([], true, place.newline 2, rest)
          else
            match escaped? d, codeWidth? d with
            | some e, _ => char e 2 rest
            | none, some width => do char (← codePoint? width rest) (2 + width) (rest.drop width)
            | none, none => none
        | [] => none
      else char c 1 rest

/-- Reads the words of a quoted scalar up to its closing quote. -/
def quotedWords (double : Bool) : (fuel : Nat) → Place → Text → Option Scanned
  | 0, _, _ => none
  | fuel + 1, place, t =>
    if atMarker place t then none
    else do
      let (word, folded, place, left) ← quotedWord double (fuel + 1) place t
      match left with
      | [] => none
      | c :: rest =>
        if !folded && !(isSpace c || isBreak c) then
          return ⟨word, false, place.right 1, rest⟩
        else
          let (gap, place, left) ← Gap.read 0 place { folded } left
          return (← quotedWords double fuel place left).behind (word ++ gap.text)

/-- Reads what follows an opening quote. `bound` exceeds the length of the text. -/
def readQuoted (double : Bool) (bound : Nat) (place : Place) (t : Text) : Option Scanned :=
  quotedWords double bound place t

end HttpRouting.Yaml
