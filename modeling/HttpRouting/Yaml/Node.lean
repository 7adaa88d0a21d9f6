import HttpRouting.Yaml.Lexer

/-!
YAML documents as trees. `Node.parse` reads a text that holds one document; a text without any holds
an empty plain scalar.
-/

namespace HttpRouting.Yaml

/-- A value of a document. -/
inductive Node
  /-- A scalar, and whether it was written without quotes. -/
  | scalar (text : Text) (plain : Bool)
  | list (items : List Node)
  /-- Entries in the order they were written, repeated keys kept. -/
  | map (entries : List (Node × Node))

namespace Node

/-- What stands where nothing was written. -/
def absent : Node := .scalar [] true

/-- Nothing was written. -/
def isAbsent : Node → Bool
  | .scalar [] true => true
  | _ => false

/-- Whether the next token is one of these. -/
def nextIn (stops : List Token) (ts : List Token) : Bool := ts.head?.any stops.contains

mutual

/-- Reads one node. Block collections are read only where a block may stand, and a sequence without
indentation only as the value of a block mapping. -/
def read : (fuel : Nat) → (block unindented : Bool) → List Token → Option (Node × List Token)
  | 0, _, _, _ => none
  | fuel + 1, block, unindented, ts =>
    match ts with
    | .scalar t plain :: rest => some (.scalar t plain, rest)
    | .flowSequenceStart :: rest =>
      (readFlowItems fuel true rest).map fun (items, rest) => (.list items, rest)
    | .flowMappingStart :: rest =>
      (readFlowEntries fuel true rest).map fun (entries, rest) => (.map entries, rest)
    | .blockEntry :: _ =>
      if unindented then
        (readUnindented fuel ts).map fun (items, rest) => (.list items, rest)
      else none
    | .blockSequenceStart :: rest =>
      if block then (readItems fuel rest).map fun (items, rest) => (.list items, rest) else none
    | .blockMappingStart :: rest =>
      if block then (readEntries fuel rest).map fun (entries, rest) => (.map entries, rest)
      else none
    | _ => none

/-- Reads a node unless one of the given tokens comes next; then nothing was written. -/
def readUnless : (fuel : Nat) → (stops : List Token) → (block unindented : Bool) → List Token →
    Option (Node × List Token)
  | 0, _, _, _, _ => none
  | fuel + 1, stops, block, unindented, ts =>
    if nextIn stops ts then some (absent, ts) else read fuel block unindented ts

/-- The items of an indented block sequence. -/
def readItems : (fuel : Nat) → List Token → Option (List Node × List Token)
  | 0, _ => none
  | fuel + 1, ts =>
    match ts with
    | .blockEntry :: rest => do
      let (item, rest) ← readUnless fuel [.blockEntry, .blockEnd] true false rest
      let (items, rest) ← readItems fuel rest
      return (item :: items, rest)
    | .blockEnd :: rest => some ([], rest)
    | _ => none

/-- The items of a block sequence that stands at the column of its key. -/
def readUnindented : (fuel : Nat) → List Token → Option (List Node × List Token)
  | 0, _ => none
  | fuel + 1, ts =>
    match ts with
    | .blockEntry :: rest => do
      let (item, rest) ← readUnless fuel [.blockEntry, .key, .value, .blockEnd] true false rest
      let (items, rest) ← readUnindented fuel rest
      return (item :: items, rest)
    | _ => some ([], ts)

/-- The entries of a block mapping. -/
def readEntries : (fuel : Nat) → List Token → Option (List (Node × Node) × List Token)
  | 0, _ => none
  | fuel + 1, ts =>
    match ts with
    | .key :: rest => do
      let (key, rest) ← readUnless fuel [.key, .value, .blockEnd] true true rest
      let (value, rest) ←
        match rest with
        | .value :: rest => readUnless fuel [.key, .value, .blockEnd] true true rest
        | _ => some (absent, rest)
      let (entries, rest) ← readEntries fuel rest
      return ((key, value) :: entries, rest)
    | .blockEnd :: rest => some ([], rest)
    | _ => none

/-- The items of a flow sequence; a key among them makes a mapping of one entry. -/
def readFlowItems : (fuel : Nat) → (first : Bool) → List Token →
    Option (List Node × List Token)
  | 0, _, _ => none
  | fuel + 1, first, ts =>
    match ts with
    | .flowSequenceEnd :: rest => some ([], rest)
    | _ => do
      let ts ←
        if first then some ts
        else
          match ts with
          | .flowEntry :: rest => some rest
          | _ => none
      match ts with
      | .flowSequenceEnd :: rest => some ([], rest)
      | .key :: rest =>
        let (key, rest) ← readUnless fuel [.value, .flowEntry, .flowSequenceEnd] false false rest
        let (value, rest) ←
          match rest with
          | .value :: rest => readUnless fuel [.flowEntry, .flowSequenceEnd] false false rest
          | _ => some (absent, rest)
        let (items, rest) ← readFlowItems fuel false rest
        return (.map [(key, value)] :: items, rest)
      | _ =>
        let (item, rest) ← read fuel false false ts
        let (items, rest) ← readFlowItems fuel false rest
        return (item :: items, rest)

/-- The entries of a flow mapping. -/
def readFlowEntries : (fuel : Nat) → (first : Bool) → List Token →
    Option (List (Node × Node) × List Token)
  | 0, _, _ => none
  | fuel + 1, first, ts =>
    match ts with
    | .flowMappingEnd :: rest => some ([], rest)
    | _ => do
      let ts ←
        if first then some ts
        else
          match ts with
          | .flowEntry :: rest => some rest
          | _ => none
      match ts with
      | .flowMappingEnd :: rest => some ([], rest)
      | .key :: rest =>
        let (key, rest) ← readUnless fuel [.value, .flowEntry, .flowMappingEnd] false false rest
        let (value, rest) ←
          match rest with
          | .value :: rest => readUnless fuel [.flowEntry, .flowMappingEnd] false false rest
          | _ => some (absent, rest)
        let (entries, rest) ← readFlowEntries fuel false rest
        return ((key, value) :: entries, rest)
      | _ =>
        let (key, rest) ← read fuel false false ts
        let (entries, rest) ← readFlowEntries fuel false rest
        return ((key, absent) :: entries, rest)

end

/-- The single document of a token stream. Behind an explicit start nothing may be written; without
one there has to be a node, unless the stream is empty. -/
def ofTokens? (ts : List Token) : Option Node := do
  let fuel := 4 * ts.length + 4
  let (node, rest) ←
    match ts with
    | [.streamEnd] => some (absent, ts)
    | .documentStart :: rest =>
      readUnless fuel [.documentStart, .documentEnd, .streamEnd] true false rest
    | _ => read fuel true false ts
  if rest.dropWhile (· = .documentEnd) = [.streamEnd] then return node else none

/-- Reads a text that holds one document. -/
def parse (t : Text) : Option Node := do ofTokens? (← Token.scan t)

/-- The text of a scalar, however it was written. -/
def text? : Node → Option Text
  | .scalar t _ => some t
  | _ => none

/-- The truth value of a plain scalar. -/
def bool? : Node → Option Bool
  | .scalar t true =>
    let word := String.ofList t
    if word ∈ ["true", "True", "TRUE"] then some true
    else if word ∈ ["false", "False", "FALSE"] then some false
    else none
  | _ => none

/-- The items of a list; nothing counts as an empty one. -/
def items? (n : Node) : Option (List Node) :=
  if n.isAbsent then some []
  else
    match n with
    | .list items => some items
    | _ => none

/-- The fields of a record, each of the given names at most once; nothing counts as an empty one. -/
def fields? (names : List String) (n : Node) : Option (List (String × Node)) :=
  if n.isAbsent then some []
  else
    match n with
    | .map entries => do
      let fields ← entries.mapM fun (key, value) => do
        let name := String.ofList (← key.text?)
        if name ∈ names then return (name, value) else none
      if (fields.map (·.1)).Nodup then return fields else none
    | _ => none

end Node

end HttpRouting.Yaml
