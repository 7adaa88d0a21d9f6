import HttpRouting.Proofs.Pattern.Regex
import HttpRouting.Proofs.Text.Folding

/-!
# The written expression

`Regex.source` writes an expression as a text. Here such a text is read and matched by what it says,
with no regard to who wrote it. Reading goes character by character (`State.step`); letter case
is ignored and classes are those of Unicode until a group says otherwise, and what a pattern never
needs is refused. Matching lists the ways to match in the order in which they are preferred
(`ways`), and takes the first way at the leftmost place (`captures?`).

What is read from `Regex.source` is the expression (`read?_source`), and its captures are those of
`Regex.capture?` (`captures?_expression`).
-/

namespace HttpRouting

/-! ## What can be read -/

namespace Expression

/-- What one character of a text is compared with. -/
inductive Atom
  | exact (c : Char)
  /-- An ASCII letter in either case. -/
  | folded (c : Char)
  | range (low high : Char)
  /-- A word character of ASCII. -/
  | word
  /-- Any character but a line feed. -/
  | any
  deriving DecidableEq

inductive Repetition
  | once
  /-- As often as possible, but once at least. -/
  | plus
  /-- As often as possible. -/
  | star
  deriving DecidableEq

structure Factor where
  atom : Atom
  repetition : Repetition
  deriving DecidableEq

inductive Node
  /-- The start of the text. -/
  | start
  /-- The end of the text. -/
  | finish
  | factor (f : Factor)
  /-- A capture. Captures are numbered from left to right. -/
  | group (body : List Factor)
  deriving DecidableEq

end Expression

abbrev Expression := List Expression.Node

namespace Expression

def Node.factor? : Node → Option Factor
  | .factor f => some f
  | _ => none

def Node.isGroup : Node → Bool
  | .group _ => true
  | _ => false

/-- The number of captures. -/
def groups (e : Expression) : Nat := e.countP Node.isGroup

theorem groups_append (e e' : Expression) : groups (e ++ e') = groups e + groups e' :=
  List.countP_append

/-! ## Reading -/

structure Flags where
  /-- Letters are taken in either case. -/
  fold : Bool
  /-- Cases and classes are those of Unicode, otherwise those of ASCII. -/
  unicode : Bool
  deriving DecidableEq

/-- What a literal character is compared with. A character outside ASCII is refused where Unicode is
off, and one that needs the case tables of Unicode always. -/
def Flags.literal? (f : Flags) (c : Char) : Option Atom :=
  match f.fold, f.unicode with
  | false, true => some (.exact c)
  | false, false => if Regex.isAscii c then some (.exact c) else none
  | true, false => if Regex.isAscii c then some (.folded c) else none
  | true, true => if Regex.isAscii c && !c.isAlpha then some (.exact c) else none

/-- What the characters read last are the beginning of. -/
inductive Mode
  | plain
  | escaped
  /-- A parenthesis. -/
  | opened
  /-- A parenthesis with a question mark, and what follows it. -/
  | flags (seen : Text)
  /-- A class, and what follows the bracket. -/
  | bracket (seen : Text)
  deriving DecidableEq

/-- A parenthesis that is open, with the flags outside and what was read before it. -/
structure Frame where
  captures : Bool
  flags : Flags
  before : Expression

structure State where
  flags : Flags
  /-- What was read since the last open parenthesis. -/
  nodes : Expression
  /-- The atom behind them, that a repetition may follow. -/
  last? : Option Atom
  /-- The parentheses that are open, the innermost first. -/
  outer : List Frame
  mode : Mode

namespace State

/-- Letter case is ignored. -/
def initial : State := ⟨⟨true, true⟩, [], none, [], .plain⟩

/-- What was read since the last open parenthesis, once no repetition follows. -/
def settled (s : State) : Expression :=
  s.nodes ++ (s.last?.map fun a => .factor ⟨a, .once⟩).toList

def push (s : State) (a : Atom) : State :=
  { s with nodes := s.settled, last? := some a, mode := .plain }

def anchor (s : State) (node : Node) : State :=
  { s with nodes := s.settled ++ [node], last? := none, mode := .plain }

def repeat? (s : State) (repetition : Repetition) : Option State :=
  s.last?.map fun a =>
    { s with nodes := s.nodes ++ [.factor ⟨a, repetition⟩], last? := none, mode := .plain }

def opening (s : State) : State :=
  ⟨s.flags, [], none, ⟨true, s.flags, s.settled⟩ :: s.outer, .opened⟩

/-- A question mark behind a parenthesis: there will be no capture. -/
def noCapture (s : State) : State :=
  { s with outer := s.outer.modifyHead fun frame => { frame with captures := false }
           mode := .flags [] }

/-- A capture holds single characters and their repetitions. Other parentheses leave what they
hold, and a repetition may follow if that is one atom. -/
def close? (s : State) : Option State :=
  match s.outer with
  | [] => none
  | ⟨true, flags, before⟩ :: outer =>
    (s.settled.mapM Node.factor?).map fun body =>
      ⟨flags, before ++ [.group body], none, outer, .plain⟩
  | ⟨false, flags, before⟩ :: outer =>
    if s.nodes = [] then some ⟨flags, before, s.last?, outer, .plain⟩
    else some ⟨flags, before ++ s.settled, none, outer, .plain⟩

def plain? (s : State) : Char → Option State
  | '\\' => some { s with mode := .escaped }
  | '(' => some s.opening
  | ')' => s.close?
  | '[' => some { s with mode := .bracket [] }
  | '^' => some (s.anchor .start)
  | '$' => some (s.anchor .finish)
  | '.' => if s.flags.unicode then some (s.push .any) else none
  | '+' => s.repeat? .plus
  | '*' => s.repeat? .star
  | '?' | '|' | '\x7b' => none
  | c => (s.flags.literal? c).map s.push

/-- A class by its letter, or an ASCII sign that stands for itself. -/
def escaped? (s : State) (c : Char) : Option State :=
  if c = 'w' then if s.flags.unicode then none else some (s.push .word)
  else if Regex.isAscii c && !c.isAlphanum && c != '<' && c != '>' then
    (s.flags.literal? c).map s.push
  else none

/-- One flag that is turned off. -/
def setFlags? (s : State) : (seen : Text) → Option State
  | ['-', 'i'] => some { s with flags := { s.flags with fold := false }, mode := .plain }
  | ['-', 'u'] => some { s with flags := { s.flags with unicode := false }, mode := .plain }
  | _ => none

/-- One range of characters below the letters. -/
def bracket? (s : State) : (seen : Text) → Option State
  | [low, '-', high] => if low ≤ high ∧ high < 'A' then some (s.push (.range low high)) else none
  | _ => none

def step (s : State) (c : Char) : Option State :=
  match s.mode with
  | .plain => s.plain? c
  | .escaped => s.escaped? c
  | .opened => if c = '?' then some s.noCapture else s.plain? c
  | .flags seen =>
    if c = ':' then s.setFlags? seen else some { s with mode := .flags (seen ++ [c]) }
  | .bracket seen =>
    if c = ']' then s.bracket? seen else some { s with mode := .bracket (seen ++ [c]) }

/-- What was read in all, with every parenthesis closed. -/
def done? (s : State) : Option Expression :=
  if s.outer.isEmpty ∧ s.mode = .plain then some s.settled else none

end State

/-- The expression that a text writes. -/
def read? (t : Text) : Option Expression := (t.foldlM State.step .initial).bind State.done?

/-! ## Matching -/

def Atom.admits : Atom → Char → Bool
  | .exact c => (c == ·)
  | .folded c => Text.sameFolded c
  | .range low high => fun d => low ≤ d && d ≤ high
  | .word => Text.isWordChar
  | .any => (· ≠ '\n')

/-- The admitted starts of a text, the longest first, each with what is left. -/
def starts (admits : Char → Bool) : Text → List (Text × Text)
  | [] => [([], [])]
  | c :: t =>
    if admits c then (starts admits t).map (fun (u, v) => (c :: u, v)) ++ [([], c :: t)]
    else [([], c :: t)]

/-- What may be taken from a text, in the order of preference, each with what is left. -/
def Factor.ways : Factor → Text → List (Text × Text)
  | ⟨_, .once⟩, [] => []
  | ⟨a, .once⟩, c :: t => if a.admits c then [([c], t)] else []
  | ⟨a, .plus⟩, t => (starts a.admits t).filter (·.1 ≠ [])
  | ⟨a, .star⟩, t => starts a.admits t

/-- The same for one factor after another. -/
def sequence : List Factor → Text → List (Text × Text)
  | [], t => [([], t)]
  | f :: fs, t =>
    (f.ways t).flatMap fun (u, v) => (sequence fs v).map fun (u', w) => (u ++ u', w)

/-- The captures of all matches at the start of a text, in the order of preference; `atStart` tells
that nothing stands before the text. -/
def ways : Expression → (atStart : Bool) → Text → List (List Text)
  | [], _, _ => [[]]
  | .start :: e, atStart, t => if atStart then ways e atStart t else []
  | .finish :: e, atStart, t => if t = [] then ways e atStart t else []
  | .factor f :: e, atStart, t => (f.ways t).flatMap fun (u, v) => ways e (atStart && u = []) v
  | .group fs :: e, atStart, t =>
    (sequence fs t).flatMap fun (u, v) => (ways e (atStart && u = []) v).map (u :: ·)

/-- The captures of the preferred match at the leftmost place that has one. -/
def search (e : Expression) (atStart : Bool) : Text → Option (List Text)
  | [] => (ways e atStart []).head?
  | c :: t => (ways e atStart (c :: t)).head?.or (search e false t)

def captures? (e : Expression) (t : Text) : Option (List Text) := search e true t

end Expression

/-! ## The expression of a pattern -/

namespace Regex

def Item.nodes : Item → Expression
  | .slash => [.factor ⟨.exact '/', .once⟩]
  | .folded t => t.map fun c => .factor ⟨.folded c, .once⟩
  | .exact t => t.map fun c => .factor ⟨.exact c, .once⟩
  | .run .word => [.group [⟨.word, .plus⟩]]
  | .run .int => [.group [⟨.range '0' '9', .plus⟩]]
  | .rest => [.group [⟨.any, .star⟩]]

/-- What the items say, between the two anchors. -/
def expression (r : Regex) : Expression := .start :: r.flatMap Item.nodes ++ [.finish]

/-- Text that is folded is ASCII. -/
def Item.FoldsAscii : Item → Prop
  | .folded s => ∀ c ∈ s, isAscii c = true
  | _ => True

def FoldsAscii (r : Regex) : Prop := ∀ item ∈ r, item.FoldsAscii

/-- What the text of a literal becomes. -/
inductive Item.Literal : Item → Prop
  | folded {s : Text} (hs : ∀ c ∈ s, isAscii c = true) : Literal (.folded s)
  | exact (s : Text) : Literal (.exact s)

theorem literal_consChar {r : Regex} (h : ∀ item ∈ r, item.Literal) (c : Char) :
    ∀ item ∈ consChar c r, item.Literal := by
  have hchar : isAscii c = true → (Item.folded [c]).Literal :=
    fun hc => .folded (List.forall_mem_singleton.2 hc)
  unfold consChar
  split
  · next s r =>
    obtain ⟨⟨hs⟩, hr⟩ := List.forall_mem_cons.1 h
    split
    · next hc => exact List.forall_mem_cons.2 ⟨.folded (List.forall_mem_cons.2 ⟨hc, hs⟩), hr⟩
    · exact List.forall_mem_cons.2 ⟨.exact _, h⟩
  · split
    · next hc => exact List.forall_mem_cons.2 ⟨hchar hc, h⟩
    · exact List.forall_mem_cons.2 ⟨.exact _, (List.forall_mem_cons.1 h).2⟩
  · split
    · next hc => exact List.forall_mem_cons.2 ⟨hchar hc, h⟩
    · exact List.forall_mem_cons.2 ⟨.exact _, h⟩

theorem literal_foldr_consChar (s : Text) : ∀ item ∈ s.foldr consChar [], item.Literal := by
  induction s with
  | nil => exact List.forall_mem_nil _
  | cons c s ih => exact literal_consChar ih c

theorem foldsAscii_ofToken (token : Token) : FoldsAscii (ofToken token) := by
  cases token with
  | literal s =>
    intro item hitem
    cases literal_foldr_consChar s item hitem with
    | folded hs => exact hs
    | exact s => trivial
  | param name type => exact List.forall_mem_singleton.2 trivial
  | catchAll name => exact List.forall_mem_singleton.2 trivial

theorem groups_nodes_ofToken (token : Token) :
    Expression.groups ((ofToken token).flatMap Item.nodes) = token.name?.toList.length := by
  cases token with
  | literal s =>
    refine List.countP_eq_zero.2 fun node hnode => ?_
    obtain ⟨item, hitem, hnode⟩ := List.mem_flatMap.1 hnode
    cases literal_foldr_consChar s item hitem with
    | folded _ | exact _ =>
      obtain ⟨c, -, rfl⟩ := List.mem_map.1 hnode
      exact Bool.false_ne_true
  | param name type => cases type <;> rfl
  | catchAll name => rfl

theorem groups_nodes_tokens (s : Segment) :
    Expression.groups ((s.flatMap ofToken).flatMap Item.nodes) =
      (s.filterMap Token.name?).length := by
  induction s with
  | nil => rfl
  | cons token s ih =>
    rw [List.flatMap_cons, List.flatMap_append, Expression.groups_append, groups_nodes_ofToken, ih]
    cases h : token.name? with
    | none => rw [List.filterMap_cons_none h]; exact Nat.zero_add _
    | some name => rw [List.filterMap_cons_some h]; exact Nat.add_comm ..

theorem groups_nodes_segments (ss : List Segment) :
    Expression.groups ((ss.flatMap ofSegment).flatMap Item.nodes) =
      (ss.flatten.filterMap Token.name?).length := by
  induction ss with
  | nil => rfl
  | cons s ss ih =>
    rw [List.flatMap_cons, List.flatMap_append, Expression.groups_append, ih, List.flatten_cons,
      List.filterMap_append, List.length_append, ← groups_nodes_tokens s]
    rfl

end Regex

namespace Pattern

theorem foldsAscii_regex (p : Pattern) : p.regex.FoldsAscii := by
  intro item hitem
  obtain ⟨s, -, hitem⟩ := List.mem_flatMap.1 hitem
  rcases List.mem_cons.1 hitem with rfl | hitem
  · trivial
  · obtain ⟨token, -, hitem⟩ := List.mem_flatMap.1 hitem
    exact Regex.foldsAscii_ofToken token item hitem

/-- There is one capture for each name. -/
theorem groups_expression (p : Pattern) :
    Expression.groups p.regex.expression = p.names.length := by
  rw [Regex.expression, Expression.groups_append]
  exact Regex.groups_nodes_segments p.segments

end Pattern

/-! ## Reading what is written -/

namespace Expression

open Regex (escape metacharacters isAscii)

variable {f : Flags} {t t' : Text} {e e' : Expression}

/-- The second state has the nodes behind those of the first, and is the same otherwise. -/
structure State.Adds (s s' : State) (e : Expression) : Prop where
  flags : s'.flags = s.flags
  mode : s'.mode = .plain
  outer : s'.outer = s.outer
  settled : s'.settled = s.settled ++ e

/-- Reading the text adds the nodes. -/
def Reads (f : Flags) (t : Text) (e : Expression) : Prop :=
  ∀ s : State, s.flags = f → s.mode = .plain →
    ∃ s', t.foldlM State.step s = some s' ∧ s.Adds s' e

namespace State

variable {s : State} {c : Char}

theorem step_plain (hmode : s.mode = .plain) (c : Char) : s.step c = s.plain? c := by
  rw [step, hmode]

theorem adds_push (a : Atom) : s.Adds (s.push a) [.factor ⟨a, .once⟩] := ⟨rfl, rfl, rfl, rfl⟩

theorem plain?_of_notMem (hc : c ∉ metacharacters) :
    s.plain? c = (s.flags.literal? c).map s.push := by
  unfold plain?
  split <;> first
    | exact absurd (by decide) hc
    | rfl

theorem escaped?_of_mem (hc : c ∈ metacharacters) :
    s.escaped? c = (s.flags.literal? c).map s.push := by
  have hsigns : metacharacters.all
      (fun c => c != 'w' && (isAscii c && !c.isAlphanum && c != '<' && c != '>')) = true := rfl
  obtain ⟨hw, hsign⟩ := Bool.and_eq_true_iff.1 (List.all_eq_true.1 hsigns c hc)
  rw [escaped?, if_neg (bne_iff_ne.1 hw), if_pos hsign]

theorem close?_of_flagged {before : Expression} {outer : List Frame}
    (h : s.outer = ⟨false, f, before⟩ :: outer) :
    ∃ s', s.close? = some s' ∧ s'.flags = f ∧ s'.mode = .plain ∧ s'.outer = outer ∧
      s'.settled = before ++ s.settled := by
  rw [close?, h]
  by_cases hnodes : s.nodes = []
  · refine ⟨⟨f, before, s.last?, outer, .plain⟩, if_pos hnodes, rfl, rfl, rfl, ?_⟩
    rw [settled, settled, hnodes, List.nil_append]
  · exact ⟨⟨f, before ++ s.settled, none, outer, .plain⟩, if_neg hnodes, rfl, rfl, rfl,
      List.append_nil _⟩

end State

namespace Reads

theorem nil : Reads f [] [] := fun s _ hmode => ⟨s, rfl, rfl, hmode, rfl, (List.append_nil _).symm⟩

theorem append (h : Reads f t e) (h' : Reads f t' e') : Reads f (t ++ t') (e ++ e') := by
  intro s hflags hmode
  obtain ⟨s₁, hs₁, hadds⟩ := h s hflags hmode
  obtain ⟨s₂, hs₂, hadds'⟩ := h' s₁ (hadds.flags.trans hflags) hadds.mode
  refine ⟨s₂, ?_, hadds'.flags.trans hadds.flags, hadds'.mode, hadds'.outer.trans hadds.outer, ?_⟩
  · rw [List.foldlM_append, hs₁]
    exact hs₂
  · rw [hadds'.settled, hadds.settled, List.append_assoc]

/-- A character is literal behind a backslash, and without one if it has no other meaning. -/
theorem char {c : Char} {a : Atom} (h : f.literal? c = some a) :
    Reads f (if metacharacters.contains c then ['\\', c] else [c]) [.factor ⟨a, .once⟩] := by
  intro s hflags hmode
  have hliteral : (s.flags.literal? c).map s.push = some (s.push a) := by
    rw [hflags, h, Option.map_some]
  refine ⟨s.push a, ?_, State.adds_push a⟩
  split
  · next hc =>
    have hescaped : State.step s '\\' = some { s with mode := .escaped } := s.step_plain hmode _
    have hsign : State.step { s with mode := .escaped } c = some (s.push a) :=
      (State.escaped?_of_mem (List.contains_iff_mem.1 hc)).trans hliteral
    simp only [List.foldlM_cons, List.foldlM_nil, hescaped, hsign, Option.bind_eq_bind,
      Option.bind_some, Option.pure_def]
  · next hc =>
    have hplain : State.step s c = some (s.push a) := by
      rw [s.step_plain hmode, State.plain?_of_notMem (mt List.contains_iff_mem.2 hc), hliteral]
    simp only [List.foldlM_cons, List.foldlM_nil, hplain, Option.bind_eq_bind, Option.bind_some,
      Option.pure_def]

theorem escape {atom : Char → Atom} {s : Text} (h : ∀ c ∈ s, f.literal? c = some (atom c)) :
    Reads f (escape s) (s.map fun c => .factor ⟨atom c, .once⟩) := by
  induction s with
  | nil => exact nil
  | cons c s ih =>
    rw [List.forall_mem_cons] at h
    exact (char h.1).append (ih h.2)

/-- A group with a flag turned off leaves what it holds. -/
theorem flagged (inner : Flags) {opening : Text}
    (hopening : ∀ s : State, s.flags = f → s.mode = .plain →
      opening.foldlM State.step s =
        some ⟨inner, [], none, ⟨false, f, s.settled⟩ :: s.outer, .plain⟩)
    (h : Reads inner t e) : Reads f (opening ++ t ++ [')']) e := by
  intro s hflags hmode
  obtain ⟨s₁, hs₁, hadds⟩ := h ⟨inner, [], none, ⟨false, f, s.settled⟩ :: s.outer, .plain⟩ rfl rfl
  obtain ⟨s₂, hs₂, hflags₂, hmode₂, houter, hsettled⟩ := s₁.close?_of_flagged hadds.outer
  have hclose : State.step s₁ ')' = some s₂ := (s₁.step_plain hadds.mode _).trans hs₂
  refine ⟨s₂, ?_, hflags₂.trans hflags.symm, hmode₂, houter, ?_⟩
  · simp only [List.foldlM_append, List.foldlM_cons, List.foldlM_nil, hopening s hflags hmode, hs₁,
      hclose, Option.bind_eq_bind, Option.bind_some, Option.pure_def]
  · rw [hsettled, hadds.settled]
    rfl

theorem item {item : Regex.Item} (h : item.FoldsAscii) :
    Reads ⟨true, true⟩ item.source item.nodes := by
  cases item with
  | slash => exact char (c := '/') rfl
  | folded s =>
    refine flagged ⟨true, false⟩ ?_ (escape fun c hc => if_pos (h c hc))
    rintro ⟨_, nodes, last?, outer, _⟩ rfl rfl
    rfl
  | exact s =>
    refine flagged ⟨false, true⟩ ?_ (escape fun _ _ => rfl)
    rintro ⟨_, nodes, last?, outer, _⟩ rfl rfl
    rfl
  | run type =>
    rintro ⟨_, nodes, last?, outer, _⟩ rfl rfl
    cases type with
    | word => exact ⟨_, rfl, rfl, rfl, rfl, List.append_nil _⟩
    | int => exact ⟨_, rfl, rfl, rfl, rfl, List.append_nil _⟩
  | rest =>
    rintro ⟨_, nodes, last?, outer, _⟩ rfl rfl
    exact ⟨_, rfl, rfl, rfl, rfl, List.append_nil _⟩

theorem items {r : Regex} (h : r.FoldsAscii) :
    Reads ⟨true, true⟩ (r.flatMap Regex.Item.source) (r.flatMap Regex.Item.nodes) := by
  induction r with
  | nil => exact nil
  | cons first r ih =>
    obtain ⟨hfirst, hr⟩ := List.forall_mem_cons.1 h
    exact (item hfirst).append (ih hr)

end Reads

/-- What is written is read as it is meant. -/
theorem read?_source {r : Regex} (h : r.FoldsAscii) : read? r.source = some r.expression := by
  obtain ⟨s, hs, hadds⟩ := Reads.items h (State.initial.anchor .start) rfl rfl
  have hstart : State.step .initial '^' = some (State.initial.anchor .start) := rfl
  have hfinish : State.step s '$' = some (s.anchor .finish) := s.step_plain hadds.mode _
  have hdone : (s.anchor .finish).done? = some (s.settled ++ [.finish] ++ []) := by
    rw [State.done?, if_pos]
    · rfl
    · exact ⟨List.isEmpty_iff.2 hadds.outer, rfl⟩
  simp only [read?, Regex.source, List.cons_append, List.foldlM_cons, List.foldlM_append,
    List.foldlM_nil, hstart, hs, hfinish, Option.bind_eq_bind, Option.bind_some, Option.pure_def]
  rw [hdone, hadds.settled, List.append_nil]
  rfl

example : read? "^/(?-u:a\\.)([0-9]+)$".toList =
    some (Regex.expression [.slash, .folded ['a', '.'], .run .int]) := by decide

/-! ## Matching what is read -/

/-- The preferred way to match at the start of a text is a function of that text. -/
def Yields (e : Expression) (g : Text → Option (List Text)) : Prop :=
  ∀ atStart t, (ways e atStart t).head? = g t

/-- The longest admitted start that an answer for the rest follows, with that answer. -/
def first (admits : Char → Bool) (g : Text → Option (List Text)) (t : Text) :
    Option (Text × List Text) :=
  (starts admits t).findSome? fun (u, v) => (g v).map (u, ·)

theorem first_nil (admits : Char → Bool) (g : Text → Option (List Text)) :
    first admits g [] = (g []).map ([], ·) := by
  rw [first, starts, List.findSome?_singleton]

theorem first_cons (admits : Char → Bool) (g : Text → Option (List Text)) (c : Char) (t : Text) :
    first admits g (c :: t) =
      (if admits c then (first admits g t).map fun (value, values) => (c :: value, values)
        else none).or ((g (c :: t)).map ([], ·)) := by
  rw [first, starts]
  split
  · rw [List.findSome?_append, List.findSome?_map, List.findSome?_singleton, first,
      List.map_findSome?]
    simp only [Function.comp_def, Option.map_map]
  · rw [List.findSome?_singleton, Option.none_or]

theorem first_capture? (admits : Char → Bool) (r : Regex) (t : Text) :
    first admits r.capture? t = r.value? admits t := by
  induction t with
  | nil => rw [first_nil, Regex.value?_nil]
  | cons c t ih => rw [first_cons, Regex.value?_cons, ih]

namespace Yields

variable {g : Text → Option (List Text)}

theorem finish : Yields [.finish] (Regex.capture? []) := by
  intro atStart t
  rw [Regex.capture?_nil, ways]
  split <;> rfl

theorem text (h : Yields e g) (atom : Char → Atom) (s : Text) :
    Yields (s.map (fun c => .factor ⟨atom c, .once⟩) ++ e)
      fun t => (Text.dropStart? (fun a => (atom a).admits) s t).bind g := by
  induction s with
  | nil => exact h
  | cons a s ih =>
    intro atStart t
    cases t with
    | nil => rfl
    | cons c t =>
      show _ = (Text.dropStart? _ (a :: s) (c :: t)).bind g
      rw [List.map_cons, List.cons_append, ways, Factor.ways, Text.dropStart?]
      split
      · rw [List.flatMap_singleton]
        exact ih _ t
      · rfl

/-- The value of a capture stands in front of those behind it. -/
theorem head_ways_group (h : Yields e g) (f : Factor) (atStart : Bool) (t : Text) :
    (ways (.group [f] :: e) atStart t).head? =
      (f.ways t).findSome? fun (u, v) => (g v).map (u :: ·) := by
  have hsequence : sequence [f] t = f.ways t := by simp [sequence]
  rw [ways, hsequence, List.head?_flatMap]
  simp only [List.head?_map, h _ _]

theorem run {r : Regex} (h : Yields e r.capture?) {a : Atom} {type : ParamType}
    (hadmits : a.admits = type.admits) :
    Yields (.group [⟨a, .plus⟩] :: e) (Regex.capture? (.run type :: r)) := by
  intro atStart t
  rw [head_ways_group h, Factor.ways, hadmits]
  cases t with
  | nil => rw [Regex.capture?_run_nil]; rfl
  | cons c t =>
    rw [Regex.capture?_run_cons, starts, ← first_capture?, first]
    split
    · simp [List.filter_map, List.findSome?_map, List.map_findSome?, Function.comp_def]
    · rfl

theorem rest {r : Regex} (h : Yields e r.capture?) :
    Yields (.group [⟨.any, .star⟩] :: e) (Regex.capture? (.rest :: r)) := by
  intro atStart t
  rw [head_ways_group h, Factor.ways, Regex.capture?_rest, ← first_capture?, first,
    List.map_findSome?]
  simp only [Function.comp_def, Option.map_map]
  rfl

theorem item {r : Regex} (h : Yields e r.capture?) (item : Regex.Item) :
    Yields (item.nodes ++ e) (Regex.capture? (item :: r)) := by
  cases item with
  | slash => exact h.text .exact ['/']
  | folded s => exact h.text .folded s
  | exact s => exact h.text .exact s
  | run type =>
    cases type with
    | word => exact h.run rfl
    | int =>
      refine h.run (funext fun c => ?_)
      rw [Bool.eq_iff_iff, Atom.admits, Bool.and_eq_true, decide_eq_true_iff, decide_eq_true_iff]
      exact Text.isDigit_iff.symm
  | rest => exact h.rest

theorem items (r : Regex) : Yields (r.flatMap Regex.Item.nodes ++ [.finish]) r.capture? := by
  induction r with
  | nil => exact finish
  | cons first r ih =>
    rw [List.flatMap_cons, List.append_assoc]
    exact ih.item first

end Yields

/-- Behind the start of the text nothing matches. -/
theorem search_false (e : Expression) (t : Text) : search (.start :: e) false t = none := by
  induction t with
  | nil => rfl
  | cons c t ih => rw [search, ih]; rfl

theorem captures?_expression (r : Regex) (t : Text) : captures? r.expression t = r.capture? t := by
  have hways : (ways r.expression true t).head? = r.capture? t := Yields.items r true t
  cases t with
  | nil => exact hways
  | cons c t =>
    rw [captures?, search, hways, Regex.expression, List.cons_append, search_false, Option.or_none]

end Expression

end HttpRouting
