import HttpRouting.Proofs.Router.Walk
import HttpRouting.Proofs.Text.Boundary
import HttpRouting.Router.Slicing
import Mathlib.Data.List.Chain

/-!
# Insertion and walk by bytes

Insertion and walk take fragments and paths apart at numbers of bytes. Neither ever cuts a
character, and both find what is found character by character (`Tree.slices_between_chars`). For an
insertion this rests on the common start of two texts that start with the same character: it ends at
a boundary of both and is not empty, so that each step leaves less to do. For a walk it rests on
lower case, which changes no number of bytes.
-/

namespace HttpRouting

/-! ## Pieces -/

namespace Piece

/-- The part of a key that a piece stands for. -/
def key : Piece → Key
  | .text t => Key.ofText t
  | .wild written shape => [.wild written shape]

/-- The steps that an insertion may need for some pieces: one for each of them and for each
character. -/
def stepsOf : List Piece → Nat
  | [] => 0
  | .text t :: rest => t.length + 1 + stepsOf rest
  | .wild .. :: rest => 1 + stepsOf rest

/-- What may stand behind a piece: no text behind other text. -/
def Admits : Piece → Piece → Prop
  | .text (_ :: _), .text _ => False
  | _, _ => True

end Piece

/-- The key of some pieces. -/
def Key.ofPieces (pieces : List Piece) : Key := pieces.flatMap Piece.key

namespace Key

theorem ofPieces_cons (piece : Piece) (rest : List Piece) :
    ofPieces (piece :: rest) = piece.key ++ ofPieces rest := List.flatMap_cons

theorem ofPieces_text (text : Text) (rest : List Piece) :
    ofPieces (.text text :: rest) = ofText text ++ ofPieces rest := ofPieces_cons (.text text) rest

end Key

/-- Text and wildcards take turns, except that two wildcards may be neighbours. -/
def Alternate (pieces : List Piece) : Prop := pieces.IsChain Piece.Admits

namespace Alternate

variable {c : Char} {text : Text} {rest : List Piece}

theorem text_nil (h : Alternate rest) : Alternate (.text [] :: rest) :=
  h.cons fun _ _ => trivial

/-- What may stand behind a text may stand behind any part of it. -/
theorem text_part (h : Alternate (.text (c :: text) :: rest)) (part : Text) :
    Alternate (.text part :: rest) := by
  obtain ⟨hrest, h⟩ := List.isChain_cons.1 h
  refine h.cons fun piece hpiece => ?_
  match part, piece with
  | [], _ | _ :: _, .wild .. => trivial
  | _ :: _, .text t => exact hrest _ hpiece

/-- Behind text the key does not go on with a character. -/
theorem head?_ne (h : Alternate (.text (c :: text) :: rest)) (d : Char) :
    (Key.ofPieces rest).head? ≠ some (.char d) := by
  match rest with
  | [] => exact nofun
  | .wild .. :: rest => exact nofun
  | .text t :: rest => exact ((List.isChain_cons.1 h).1 _ rfl).elim

end Alternate

namespace Pattern

theorem ofPieces_segments (before : Text) (ss : List Segment) :
    Key.ofPieces (Segment.pieces before ss) =
      Key.ofText before ++ ss.flatMap fun s => .char '/' :: Segment.key s := by
  induction ss generalizing before with
  | nil =>
    rw [Segment.pieces]
    split
    · next h => rw [h]; rfl
    · exact Key.ofPieces_text before []
  | cons s ss ih =>
    rw [Segment.pieces, List.flatMap_cons]
    by_cases hlit : Segment.isLiteral s = true
    · rw [if_pos hlit, ih, Segment.key_of_isLiteral hlit, Key.ofText_append, Key.ofText_cons,
        List.append_assoc, List.cons_append]
    · rw [if_neg hlit, Segment.key_of_not_isLiteral hlit, Key.ofPieces_text, Key.ofPieces_cons, ih,
        Key.ofText_append, List.append_assoc]
      rfl

/-- The pieces of a pattern stand for its key. -/
theorem ofPieces_pieces (p : Pattern) : Key.ofPieces p.pieces = p.key :=
  ofPieces_segments [] p.segments

theorem alternate_segments (before : Text) (ss : List Segment) :
    Alternate (Segment.pieces before ss) := by
  induction ss generalizing before with
  | nil =>
    rw [Segment.pieces]
    split
    · exact .nil
    · exact .singleton _
  | cons s ss ih =>
    rw [Segment.pieces]
    split
    · exact ih _
    · exact List.IsChain.cons (List.IsChain.cons (ih []) fun _ _ => trivial) fun _ h => by
        cases h
        cases before <;> trivial

theorem alternate_pieces (p : Pattern) : Alternate p.pieces := alternate_segments [] p.segments

end Pattern

/-! ## One step of an insertion, character by character -/

namespace Tree

variable {left : Text} {key : Key}

theorem splitCommon_apart (h : Parted left key) : splitCommon left key = ([], left, key) := by
  match left, key with
  | [], key => cases key <;> rfl
  | l :: left, [] | l :: left, .wild .. :: key => rfl
  | l :: left, .char c :: key =>
    have hlc : ¬ l = c := fun hlc => h l rfl (by rw [hlc]; rfl)
    rw [splitCommon, if_neg hlc]

theorem splitCommon_append (h : Parted left key) (common : Text) :
    splitCommon (common ++ left) (Key.ofText common ++ key) = (common, left, key) := by
  induction common with
  | nil => exact splitCommon_apart h
  | cons c common ih =>
    rw [List.cons_append, Key.ofText_cons, List.cons_append, splitCommon, if_pos rfl, ih]

theorem single_char_eq (r : Route) (c : Char) (key : Key) :
    single r (.char c :: key) = .mk (single r (.char c :: key)).texts .nil none := by
  rw [single]
  unfold push
  split <;> rfl

theorem insert_empty (r : Route) (key : Key) : empty.insert r key = (single r key, none) := by
  match key with
  | [] | .wild .. :: key => rfl
  | .char c :: key =>
    rw [single_char_eq]
    rfl

theorem single_ofText (r : Route) (c : Char) (text : Text)
    (hkey : ∀ d, key.head? ≠ some (.char d)) :
    single r (Key.ofText (c :: text) ++ key) =
      .mk (.cons (c :: text) (single r key) .nil) .nil none := by
  induction text generalizing c with
  | nil =>
    match key with
    | [] | .wild .. :: key => rfl
    | .char d :: key => exact absurd rfl (hkey d)
  | cons d text ih =>
    rw [Key.ofText_cons, List.cons_append, single, ih]
    rfl

/-- An edge that was cut where a key parts from it takes the key as a new branch. -/
theorem insert_cut (h : Parted left key) (child : Tree) (r : Route) :
    (Tree.mk (.cons left child .nil) .nil none).insert r key = (fork left child r key, none) := by
  match key with
  | [] | .wild .. :: key => rfl
  | .char c :: key =>
    rw [insert_char, TextEdges.insert_apart (splitCommon_apart h), fork, single_char_eq]
    rfl

end Tree

/-! ## Insertion by bytes -/

/-- An insertion of some pieces has a result. It is that of their key unless text stands behind
text: insertion by pieces gives the second text an edge of its own. -/
def Inserts (r : Route) (t : Tree) (pieces : List Piece)
    (result? : Option (Tree × Option Route)) : Prop :=
  ∃ result, result? = some result ∧ (Alternate pieces → result = t.insert r (.ofPieces pieces))

section

variable {r : Route} {rest : List Piece}

theorem Inserts.of_text_nil {t : Tree} {result? : Option (Tree × Option Route)}
    (h : Inserts r t (.text [] :: rest) result?) : Inserts r t rest result? := by
  obtain ⟨result, hresult, heq⟩ := h
  exact ⟨result, hresult, fun h => heq h.text_nil⟩

theorem WildEdges.alter?_eq {next : Tree → Option (Tree × Option Route)}
    (hnext : ∀ child, Inserts r child rest (next child)) (written : Text) (shape : Shape)
    (e : WildEdges) : ∃ result, e.alter? next written shape = some result ∧
      (Alternate rest → result = e.insert r written shape (.ofPieces rest)) := by
  match e with
  | .nil =>
    obtain ⟨⟨child, other?⟩, hresult, heq⟩ := hnext .empty
    rw [alter?, hresult]
    refine ⟨_, rfl, fun h => ?_⟩
    cases (heq h).trans (Tree.insert_empty r _)
    rfl
  | .cons w s child edges =>
    by_cases hw : w = written
    · obtain ⟨⟨child', other?⟩, hresult, heq⟩ := hnext child
      rw [alter?, if_pos hw, hresult]
      refine ⟨_, rfl, fun h => ?_⟩
      rw [← hw, insert_along, ← heq h]
    · obtain ⟨⟨edges', other?⟩, hresult, heq⟩ := alter?_eq hnext written shape edges
      rw [alter?, if_neg hw, hresult]
      refine ⟨_, rfl, fun h => ?_⟩
      rw [insert_apart hw, ← heq h]

namespace TextEdges

variable {common left right : Text} {c : Char} {text : Text}

theorem splitAt?_nil (fragment : Text) (child : Tree) :
    splitAt? fragment child fragment.utf8Size = some (fragment, child) :=
  if_neg (Nat.lt_irrefl _)

theorem splitAt?_append (hleft : left ≠ []) (common : Text) (child : Tree) :
    splitAt? (common ++ left) child common.utf8Size =
      some (common, .mk (.cons left child .nil) .nil none) := by
  have hlt : common.utf8Size < Text.utf8Size (common ++ left) := by
    obtain ⟨c, left, rfl⟩ := List.exists_cons_of_ne_nil hleft
    rw [Text.utf8Size_append]
    exact Nat.lt_add_of_pos_right (Text.utf8Size_pos c left)
  rw [splitAt?, if_pos hlt, Text.cut?_append]
  rfl

theorem parted_ofText {key : Key} (h : Text.Parted left right)
    (hkey : ∀ d, key.head? ≠ some (.char d)) : Tree.Parted left (Key.ofText right ++ key) := by
  intro c hc
  match right with
  | [] => exact hkey c
  | d :: right =>
    intro hd
    cases hd
    exact h c hc rfl

/-- The step behind an edge that starts as the text does. Where the text parts from the edge, it
leaves a fork; the rest of the text is shorter, since the first character is common. -/
theorem alter?_along {next : Tree → Text → Option (Tree × Option Route)}
    (hnext : ∀ child part, part.length ≤ text.length →
      Inserts r child (.text part :: rest) (next child part))
    {fragment : Text} (hhead : fragment.head? = List.head? (c :: text)) (child : Tree)
    (edges : TextEdges) :
    ∃ result, (cons fragment child edges).alter? next (c :: text) = some result ∧
      (Alternate (.text (c :: text) :: rest) →
        result = (cons fragment child edges).insert r (.ofPieces (.text (c :: text) :: rest))) := by
  obtain ⟨common, left, right, rfl, htext, hparted⟩ := Text.exists_common fragment (c :: text)
  cases common with
  | nil =>
    rw [List.nil_append] at htext
    exact absurd (htext ▸ rfl) (hparted c hhead)
  | cons d common =>
    have hlength : right.length ≤ text.length := by
      have h := congrArg List.length htext
      rw [List.length_append, List.length_cons, List.length_cons] at h
      omega
    have hkey : Key.ofPieces (.text (c :: text) :: rest) =
        Key.ofText (d :: common) ++ Key.ofPieces (.text right :: rest) := by
      rw [Key.ofPieces_text, Key.ofPieces_text, htext, Key.ofText_append, List.append_assoc]
    have hcut : Text.cut? (c :: text) (Text.utf8Size (d :: common)) =
        some (d :: common, right) := by
      rw [htext, Text.cut?_append]
    have hsize : Text.commonPrefixSize (d :: common ++ left) (c :: text) =
        Text.utf8Size (d :: common) := by
      rw [htext, Text.commonPrefixSize_append hparted]
    rw [alter?, if_pos hhead, hkey]
    cases left with
    | nil =>
      obtain ⟨⟨child', other?⟩, hresult, heq⟩ := hnext child right hlength
      rw [List.append_nil] at hsize ⊢
      simp only [hsize, splitAt?_nil, hcut, hresult, Option.bind_eq_bind, Option.bind_some]
      refine ⟨_, rfl, fun h => ?_⟩
      have hright : Tree.Parted [] (.ofPieces (.text right :: rest)) := nofun
      have hsplit := Tree.splitCommon_append hright (d :: common)
      rw [List.append_nil] at hsplit
      rw [insert_along hsplit, ← heq (h.text_part right)]
    | cons l left =>
      obtain ⟨result, hresult, heq⟩ :=
        hnext (.mk (.cons (l :: left) child .nil) .nil none) right hlength
      simp only [hsize, splitAt?_append (List.cons_ne_nil l left), hcut, hresult,
        Option.bind_eq_bind, Option.bind_some]
      refine ⟨_, rfl, fun h => ?_⟩
      have hright : Tree.Parted (l :: left) (.ofPieces (.text right :: rest)) :=
        parted_ofText hparted h.head?_ne
      rw [insert_fork (Tree.splitCommon_append hright (d :: common)), heq (h.text_part right),
        Tree.insert_cut hright]

theorem alter?_eq {next : Tree → Text → Option (Tree × Option Route)}
    (hnext : ∀ child part, part.length ≤ text.length →
      Inserts r child (.text part :: rest) (next child part)) (e : TextEdges) :
    ∃ result, e.alter? next (c :: text) = some result ∧
      (Alternate (.text (c :: text) :: rest) →
        result = e.insert r (.ofPieces (.text (c :: text) :: rest))) := by
  match e with
  | .nil =>
    obtain ⟨⟨child, other?⟩, hresult, heq⟩ := hnext .empty [] (Nat.zero_le _)
    rw [alter?, hresult]
    refine ⟨_, rfl, fun h => ?_⟩
    cases (heq (h.text_part [])).trans (Tree.insert_empty r _)
    rw [insert, Key.ofPieces_text (c :: text), Tree.single_ofText r c text h.head?_ne]
    rfl
  | .cons fragment child edges =>
    by_cases hhead : fragment.head? = List.head? (c :: text)
    · exact alter?_along hnext hhead child edges
    · obtain ⟨⟨edges', other?⟩, hresult, heq⟩ := alter?_eq hnext edges
      rw [alter?, if_neg hhead, hresult]
      refine ⟨_, rfl, fun h => ?_⟩
      have hparted : Tree.Parted fragment (.ofPieces (.text (c :: text) :: rest)) := by
        intro d hd hc
        cases hc
        exact hhead hd
      rw [insert_apart (Tree.splitCommon_apart hparted), ← heq h]

end TextEdges

/-- Each step takes a character or a piece off, so that the steps suffice. -/
theorem Tree.inserts_insertBytes? {steps : Nat} {t : Tree} {text : Text} (r : Route)
    (hsteps : text.length + Piece.stepsOf rest < steps) :
    Inserts r t (.text text :: rest) (t.insertBytes? r steps text rest) := by
  induction steps generalizing t text rest with
  | zero => exact absurd hsteps (Nat.not_lt_zero _)
  | succ n ih =>
    obtain ⟨texts, wilds, route⟩ := t
    match text, rest with
    | [], [] => cases route <;> exact ⟨_, rfl, fun _ => rfl⟩
    | [], .text text :: rest =>
      have hless : text.length + Piece.stepsOf rest < n := by
        rw [Piece.stepsOf, List.length_nil] at hsteps
        omega
      obtain ⟨result, hresult, heq⟩ := ih (t := .mk texts wilds route) hless
      refine ⟨result, ?_, fun h => heq h.tail⟩
      rw [← hresult]
      cases route <;> rfl
    | [], .wild written shape :: rest =>
      have hless : List.length ([] : Text) + Piece.stepsOf rest < n := by
        rw [Piece.stepsOf] at hsteps
        omega
      obtain ⟨result, hresult, heq⟩ :=
        WildEdges.alter?_eq (fun child => (ih (t := child) hless).of_text_nil) written shape wilds
      refine ⟨(.mk texts result.1 route, result.2), ?_, fun h => ?_⟩
      · cases route <;> rw [insertBytes?, hresult] <;> rfl
      · cases heq h.tail.tail
        exact (insert_wild r texts wilds route written shape _).symm
    | c :: text, rest =>
      have hnext : ∀ child part, part.length ≤ text.length →
          Inserts r child (.text part :: rest) (insertBytes? r n child part rest) := by
        intro child part hpart
        rw [List.length_cons] at hsteps
        exact ih (by omega)
      obtain ⟨result, hresult, heq⟩ := TextEdges.alter?_eq hnext texts
      refine ⟨(.mk result.1 wilds route, result.2), ?_, fun h => ?_⟩
      · cases route <;> rw [insertBytes?, hresult] <;> rfl
      · cases heq h
        exact (insert_char r texts wilds route c _).symm

/-- A pattern is inserted by its pieces as it is by its key. -/
theorem Tree.insertBytes?_pieces {steps : Nat} (r : Route) (t : Tree) (p : Pattern)
    (hsteps : Piece.stepsOf p.pieces < steps) :
    t.insertBytes? r steps [] p.pieces = some (t.insert r p.key) := by
  have hless : List.length ([] : Text) + Piece.stepsOf p.pieces < steps := by
    rwa [List.length_nil, Nat.zero_add]
  obtain ⟨result, hresult, heq⟩ := inserts_insertBytes? r hless (t := t)
  rw [hresult, heq p.alternate_pieces.text_nil, Key.ofPieces_text, p.ofPieces_pieces]
  rfl

end

/-! ## The walk by bytes -/

theorem Text.slash_not_mem {c : Char} (hc : c ≠ '/') : 0x2F ∉ String.utf8EncodeChar c := by
  intro hm
  by_cases hsmall : c.toNat < 0x80
  · have hb : (UInt8.ofNat c.toNat).toNat = c.toNat := by
      rw [UInt8.toNat_ofNat']
      omega
    rw [utf8EncodeChar_of_toNat hb hsmall, List.mem_singleton] at hm
    rw [← hm] at hb
    exact hc (Char.toNat_inj.1 hb.symm)
  · have hlarge := le_of_mem_utf8EncodeChar (Nat.le_of_not_lt hsmall) hm
    exact absurd hlarge (by decide)

/-- No other character has the byte of a slash. -/
theorem Path.segmentSize_eq (path : Text) :
    segmentSize path = (cutSegment path).1.utf8Size := by
  induction path with
  | nil => rfl
  | cons c path ih =>
    unfold segmentSize cutSegment at ih ⊢
    rw [List.takeWhile_cons]
    by_cases hc : c = '/'
    · subst hc
      rfl
    · have hbytes : ∀ b ∈ String.utf8EncodeChar c, decide (b ≠ 0x2F) = true := fun b hb =>
        decide_eq_true fun h => Text.slash_not_mem hc (h ▸ hb)
      rw [Text.utf8_cons, List.takeWhile_append_of_pos hbytes, List.length_append, ih,
        if_pos (decide_eq_true hc), Text.utf8Size, Text.utf8Size, Text.utf8_cons,
        List.length_append]

mutual

theorem Tree.walkBytes?_lower (t : Tree) (path : Text) (values : List Text) :
    t.walkBytes? (Text.lower path) path values = some (t.walk (Text.lower path) path values) := by
  cases t with
  | mk texts wilds route =>
    rw [Tree.walkBytes?, Tree.walk]
    split
    · rfl
    · rw [TextEdges.walkBytes?_lower texts path values, Option.bind_eq_bind, Option.bind_some]
      rcases texts.walk (Text.lower path) path values with ⟨_ | r, values⟩
      · exact WildEdges.walkBytes?_lower wilds path values
      · rfl

theorem TextEdges.walkBytes?_lower (e : TextEdges) (path : Text) (values : List Text) :
    e.walkBytes? (Text.lower path) path values = some (e.walk (Text.lower path) path values) := by
  cases e with
  | nil => rfl
  | cons fragment child rest =>
    rw [TextEdges.walkBytes?, Text.isPrefixOf_utf8]
    cases hd : Text.dropStart? (· == ·) fragment (Text.lower path) with
    | none =>
      rw [TextEdges.walk_of_none hd, TextEdges.walkBytes?_lower rest path values]
      rfl
    | some left =>
      have hlower := Text.dropStart?_beq_eq_some_iff.1 hd
      have hleft : left = Text.lower (path.drop fragment.length) := by
        rw [Text.lower_drop, hlower, List.drop_left]
      have hcut : (Text.lower path).cut? fragment.utf8Size = some (fragment, left) :=
        Text.cut?_eq_some_iff.2 ⟨hlower, rfl⟩
      rw [TextEdges.walk_of_some hd, if_pos Option.isSome_some, hcut, Text.cut?_lower hlower, hleft]
      exact Tree.walkBytes?_lower child _ values

theorem WildEdges.walkBytes?_lower (e : WildEdges) (path : Text) (values : List Text) :
    e.walkBytes? (Text.lower path) path values = some (e.walk (Text.lower path) path values) := by
  cases e with
  | nil => rfl
  | cons written shape child rest =>
    have hrest := WildEdges.walkBytes?_lower rest path
    have hlower := Path.cutSegment_append (Text.lower path)
    rw [WildEdges.walkBytes?, WildEdges.walk, Path.segmentSize_eq]
    generalize Path.cutSegment (Text.lower path) = parts at hlower ⊢
    obtain ⟨segment, left⟩ := parts
    have hleft : left = Text.lower (path.drop segment.length) := by
      rw [Text.lower_drop, ← hlower, List.drop_left]
    have hcut : (Text.lower path).cut? segment.utf8Size = some (segment, left) :=
      Text.cut?_eq_some_iff.2 ⟨hlower.symm, rfl⟩
    simp only [hcut, Text.cut?_lower hlower.symm, Option.bind_eq_bind, Option.bind_some]
    by_cases haccepts : shape.accepts segment = true
    · rw [if_pos haccepts, if_pos haccepts, hleft, Tree.walkBytes?_lower child, Option.bind_some]
      rcases child.walk _ _ _ with ⟨_ | r, values⟩
      · exact hrest _
      · rfl
    · rw [if_neg haccepts, if_neg haccepts]
      exact hrest values

end

/-- A tree takes texts apart between characters only. The bytes that a text has in common with a
fragment end at a boundary of both; so an insertion always finds its cuts, and comes to its end in
as many steps as there are characters and pieces. A walk cuts a path in lower case and the path as
it is written at the same bytes. Both give what is found character by character. -/
theorem Tree.slices_between_chars :
    (∀ t u : Text, t.CommonPrefix u (t.commonPrefixSize u)) ∧
    (∀ (r : Route) (t : Tree) (text : Text) (rest : List Piece) (steps : Nat),
      text.length + Piece.stepsOf rest < steps →
        ∃ result, t.insertBytes? r steps text rest = some result ∧
          (Alternate (.text text :: rest) → result = t.insert r (.ofPieces (.text text :: rest)))) ∧
    (∀ (r : Route) (t : Tree) (p : Pattern) (steps : Nat), Piece.stepsOf p.pieces < steps →
      t.insertBytes? r steps [] p.pieces = some (t.insert r p.key)) ∧
    (∀ (t : Tree) (path : Text) (values : List Text), (Text.lower path).utf8Size = path.utf8Size ∧
      t.walkBytes? (Text.lower path) path values =
        some (t.walk (Text.lower path) path values)) := by
  refine ⟨Text.commonPrefix, fun r t text rest steps => inserts_insertBytes? r,
    fun r t p steps => insertBytes?_pieces r t p, ?_⟩
  exact fun t path values => ⟨Text.utf8Size_lower path, t.walkBytes?_lower path values⟩

end HttpRouting
