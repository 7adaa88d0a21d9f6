import HttpRouting.Proofs.Pattern.Subsumption

/-!
# Spellings

Two patterns are told apart by the first segment that they spell differently, letter case aside. The
spelling of a segment tells its key (`Segment.key_congr`), and since a slash or the end follows each
wildcard, a start of a key that ends with one tells the spelling of the segments up to there
(`Pattern.spelling_take_iff`).
-/

namespace HttpRouting

/-! ## Parts of a path -/

namespace Path

/-- A segment may end right before the text. -/
def Fresh (t : Text) : Prop := ∀ c ∈ t.head?, c = '/'

theorem fresh_ofParts (parts : List Text) : Fresh (ofParts parts) := by
  cases parts with
  | nil => exact nofun
  | cons u parts => exact fun c hc => (Option.some.inj hc).symm

theorem cutSegment_of_fresh {u t : Text} (hu : '/' ∉ u) (ht : Fresh t) :
    cutSegment (u ++ t) = (u, t) := by
  induction u with
  | nil =>
    cases t with
    | nil => rfl
    | cons c t =>
      obtain rfl := ht c rfl
      exact cutSegment_slash t
  | cons c u ih =>
    rw [List.mem_cons, not_or] at hu
    rw [List.cons_append, cutSegment_cons (Ne.symm hu.1), ih hu.2]

/-- A path cut where a segment ends has the parts in front of the cut. -/
theorem prefix_of_ofParts {us vs : List Text} {t : Text} (hus : ∀ u ∈ us, '/' ∉ u)
    (hvs : ∀ v ∈ vs, '/' ∉ v) (ht : Fresh t) (h : ofParts us ++ t = ofParts vs) : us <+: vs := by
  induction us generalizing vs with
  | nil => exact List.nil_prefix
  | cons u us ih =>
    obtain ⟨hu, hus⟩ := List.forall_mem_cons.1 hus
    cases vs with
    | nil => cases h
    | cons v vs =>
      obtain ⟨hv, hvs'⟩ := List.forall_mem_cons.1 hvs
      rw [ofParts_cons, ofParts_cons, List.cons_append, List.append_assoc] at h
      have hfresh : Fresh (ofParts us ++ t) := by
        cases us with
        | nil => exact ht
        | cons w us => exact fresh_ofParts (w :: us)
      have hcut := congrArg cutSegment (List.cons.inj h).2
      rw [cutSegment_of_fresh hu hfresh, cutSegment_of_fresh hv (fresh_ofParts vs)] at hcut
      obtain ⟨rfl, hrest⟩ := Prod.mk.inj hcut
      exact List.cons_prefix_cons.2 ⟨rfl, ih hus hvs' hrest⟩

theorem ofParts_inj {us vs : List Text} (hus : ∀ u ∈ us, '/' ∉ u) (hvs : ∀ v ∈ vs, '/' ∉ v)
    (h : ofParts us = ofParts vs) : us = vs := by
  have hprefix := prefix_of_ofParts hus hvs (t := []) nofun ((List.append_nil _).trans h)
  have hprefix' := prefix_of_ofParts hvs hus (t := []) nofun ((List.append_nil _).trans h.symm)
  exact hprefix.eq_of_length_le hprefix'.length_le

theorem ofParts_cons_inj {u v : Text} {us vs : List Text} (hu : '/' ∉ u) (hv : '/' ∉ v)
    (h : ofParts (u :: us) = ofParts (v :: vs)) : u = v ∧ ofParts us = ofParts vs := by
  rw [ofParts_cons, ofParts_cons] at h
  have hcut := congrArg cutSegment (List.cons.inj h).2
  rw [cutSegment_of_fresh hu (fresh_ofParts us), cutSegment_of_fresh hv (fresh_ofParts vs)] at hcut
  exact Prod.mk.inj hcut

end Path

/-! ## Segments -/

namespace Segment

variable {s s' : Segment} {u : Text}

theorem literal?_of_isLiteral (h : isLiteral s = true) : literal? s = some (text s) := by
  induction s with
  | nil => rfl
  | cons token s ih =>
    obtain ⟨htoken, hs⟩ := Bool.and_eq_true_iff.1 (List.all_cons.symm.trans h)
    cases token with
    | literal t =>
      rw [literal?, ih hs]
      rfl
    | param | catchAll => cases htoken

theorem spells_of_isLiteral (h : isLiteral s = true) :
    s.Spells u ↔ Text.lower u = Text.lower (text s) :=
  spells_of_literal? (literal?_of_isLiteral h)

theorem isLiteral_map {f : Token → Token} (hf : ∀ token, (f token).isLiteral = token.isLiteral)
    (s : Segment) : isLiteral (s.map f) = isLiteral s := by
  rw [isLiteral, List.all_map]
  exact congrArg s.all (funext hf)

theorem isLiteral_lower (s : Segment) : isLiteral (lower s) = isLiteral s :=
  isLiteral_map (fun token => by cases token <;> rfl) s

/-- The key of a segment of the given text. -/
def keyOf (written : Text) : Key :=
  match parse written with
  | .ok s => key s
  | .error _ => []

/-- The text of a segment that was read, letter case aside, tells its key. -/
theorem keyOf_lower (h : parse (text s) = .ok s) : keyOf (Text.lower (text s)) = key s := by
  have htext : text (lower s) = Text.lower (text s) := text_parse (parse_lower h)
  rw [keyOf, parse_lower h]
  show key (lower s) = key s
  rw [key, key, isLiteral_lower, shape_lower, htext, Text.lower_lower]

/-- A wildcard is the whole key of its segment. -/
theorem eq_nil_of_key {front back : Key} {written : Text} {shape : Shape}
    (h : key s = front ++ .wild written shape :: back) : front = [] ∧ back = [] := by
  by_cases hlit : isLiteral s = true
  · rw [key_of_isLiteral hlit] at h
    have hm : Symbol.wild written shape ∈ Key.ofText (Text.lower (text s)) :=
      h ▸ List.mem_append_right _ List.mem_cons_self
    obtain ⟨c, -, hc⟩ := List.mem_map.1 hm
    cases hc
  · rw [key_of_not_isLiteral hlit] at h
    rcases List.append_eq_singleton_iff.1 h.symm with ⟨hfront, hback⟩ | ⟨-, hback⟩
    · exact ⟨hfront, (List.cons.inj hback).2⟩
    · cases hback

end Segment

/-! ## Patterns -/

namespace Pattern

theorem isLiteral_or_isParam {p : Pattern} (hp : p.isWalkable = true) {i : Nat} {s : Segment}
    (hs : p.segments[i]? = some s) : Segment.isLiteral s = true ∨ Segment.isParam s = true :=
  Bool.or_eq_true_iff.1 (List.all_eq_true.1 hp s (List.mem_of_getElem? hs))

/-- How a pattern is spelled: the texts of its segments, letter case aside. -/
def spelling (p : Pattern) : List Text := p.segments.map fun s => Text.lower (Segment.text s)

variable {p q : Pattern} {t u : Text} {n i : Nat} {s : Segment}

theorem lower_text (p : Pattern) : Text.lower p.text = Path.ofParts p.spelling := by
  unfold text spelling
  induction p.segments with
  | nil => rfl
  | cons s ss ih =>
    rw [List.flatMap_cons, Text.lower_append, ih]
    rfl

theorem Formed.notMem_spelling (hp : p.Formed) : ∀ u ∈ p.spelling, '/' ∉ u := by
  intro u hu hslash
  obtain ⟨s, hs, rfl⟩ := List.mem_map.1 hu
  obtain ⟨c, hc, hlower⟩ := List.mem_map.1 hslash
  rw [Text.toLower_eq_iff (by decide)] at hlower
  exact hp.noSlash s hs (hlower ▸ hc)

/-- The key of the first segments. -/
def keyUpTo (p : Pattern) (n : Nat) : Key := (Pattern.mk (p.segments.take n)).key

theorem keyUpTo_append (p : Pattern) (n : Nat) :
    p.keyUpTo n ++ (Pattern.mk (p.segments.drop n)).key = p.key := by
  unfold keyUpTo key
  rw [← List.flatMap_append, List.take_append_drop]

theorem keyUpTo_succ (hs : p.segments[i]? = some s) :
    p.keyUpTo (i + 1) = p.keyUpTo i ++ .char '/' :: Segment.key s := by
  unfold keyUpTo key
  rw [List.take_add_one, hs, List.flatMap_append]
  simp

theorem key_eq_of_getElem? (hs : p.segments[i]? = some s) :
    p.key = (p.keyUpTo i ++ [.char '/']) ++
      (Segment.key s ++ (Pattern.mk (p.segments.drop (i + 1))).key) := by
  rw [← p.keyUpTo_append (i + 1), keyUpTo_succ hs]
  simp

theorem keyUpTo_succ_of_not_isLiteral (hs : p.segments[i]? = some s)
    (hlit : ¬ Segment.isLiteral s = true) : p.keyUpTo (i + 1) =
      (p.keyUpTo i ++ [.char '/']) ++ [.wild (Text.lower (Segment.text s)) (Segment.shape s)] := by
  rw [keyUpTo_succ hs, Segment.key_of_not_isLiteral hlit]
  simp

/-- A key has a wildcard right where a segment starts only if it is the key of that segment. -/
theorem wild_of_key (hs : p.segments[i]? = some s) {written : Text} {shape : Shape} {back : Key}
    (h : p.key = (p.keyUpTo i ++ [.char '/']) ++ .wild written shape :: back) :
    ¬ Segment.isLiteral s = true ∧ written = Text.lower (Segment.text s) ∧
      shape = Segment.shape s := by
  rw [key_eq_of_getElem? hs] at h
  have hrest := List.append_cancel_left h
  by_cases hlit : Segment.isLiteral s = true
  · rw [Segment.key_of_isLiteral hlit] at hrest
    generalize Text.lower (Segment.text s) = v at hrest
    generalize p.segments.drop (i + 1) = ss at hrest
    -- What comes next is a character, the slash of the next segment, or nothing.
    cases v with
    | nil => cases ss <;> cases hrest
    | cons c v => cases hrest
  · rw [Segment.key_of_not_isLiteral hlit] at hrest
    cases hrest
    exact ⟨hlit, rfl, rfl⟩

theorem text_keyUpTo (p : Pattern) (n : Nat) :
    Key.text (p.keyUpTo n) = Path.ofParts (p.spelling.take n) := by
  rw [keyUpTo, text_key, lower_text, spelling, spelling, List.map_take]

theorem keyUpTo_eq (hp : parse t = .ok p) (n : Nat) :
    p.keyUpTo n = (p.spelling.take n).flatMap fun u => .char '/' :: Segment.keyOf u := by
  unfold keyUpTo key spelling
  rw [← List.map_take, List.flatMap_map, List.flatMap_def, List.flatMap_def]
  congr 1
  apply List.map_congr_left
  intro s hs
  rw [Segment.keyOf_lower (parse_segment hp (List.mem_of_mem_take hs))]

theorem keyUpTo_congr (hp : parse t = .ok p) (hq : parse u = .ok q)
    (h : p.spelling.take n = q.spelling.take n) : p.keyUpTo n = q.keyUpTo n := by
  rw [keyUpTo_eq hp, keyUpTo_eq hq, h]

theorem fresh_text_key (p : Pattern) : Path.Fresh (Key.text p.key) := by
  rw [text_key, lower_text]
  exact Path.fresh_ofParts p.spelling

/-- A slash follows a wildcard, or the end. -/
theorem fresh_of_wild {ss : List Segment} {front back : Key} {written : Text} {shape : Shape}
    (h : (Pattern.mk ss).key = front ++ .wild written shape :: back) :
    Path.Fresh (Key.text back) := by
  induction ss generalizing front with
  | nil => cases (List.append_eq_nil_iff.1 h.symm).2
  | cons s ss ih =>
    have hcons : (Pattern.mk (s :: ss)).key =
        .char '/' :: (Segment.key s ++ (Pattern.mk ss).key) := rfl
    rw [hcons] at h
    cases front with
    | nil => cases h
    | cons symbol front =>
      rcases List.append_eq_append_iff.1 (List.cons.inj h).2 with ⟨more, -, h⟩ | ⟨more, hs, h⟩
      · exact ih h
      · cases more with
        | nil =>
          have hrest : (Pattern.mk ss).key = [] ++ .wild written shape :: back := h.symm
          exact ih hrest
        | cons symbol more =>
          obtain ⟨rfl, hback⟩ := List.cons.inj h
          obtain ⟨-, rfl⟩ := Segment.eq_nil_of_key hs
          rw [hback]
          exact fresh_text_key ⟨ss⟩

/-- A key starts like another one, up to a wildcard of that one, if and only if the two patterns are
spelled alike up to there. -/
theorem spelling_take_iff (hp : parse t = .ok p) (hq : parse u = .ok q)
    (hs : p.segments[i]? = some s) (hlit : ¬ Segment.isLiteral s = true) :
    p.keyUpTo (i + 1) <+: q.key ↔ q.spelling.take (i + 1) = p.spelling.take (i + 1) := by
  constructor
  · rintro ⟨back, hback⟩
    have hwild : q.key = (p.keyUpTo i ++ [.char '/']) ++
        .wild (Text.lower (Segment.text s)) (Segment.shape s) :: back := by
      rw [← hback, keyUpTo_succ_of_not_isLiteral hs hlit, List.append_assoc]
      rfl
    have htext : Path.ofParts (p.spelling.take (i + 1)) ++ Key.text back =
        Path.ofParts q.spelling := by
      rw [← text_keyUpTo, ← Key.text_append, hback, text_key, lower_text]
    have hfresh : Path.Fresh (Key.text back) := by
      obtain ⟨ss⟩ := q
      exact fresh_of_wild hwild
    have hprefix : p.spelling.take (i + 1) <+: q.spelling := by
      apply Path.prefix_of_ofParts _ (formed_parse hq).notMem_spelling hfresh htext
      intro v hv
      exact (formed_parse hp).notMem_spelling v (List.mem_of_mem_take hv)
    have hlength : (p.spelling.take (i + 1)).length = i + 1 := by
      have hi := (List.getElem?_eq_some_iff.1 hs).1
      rw [List.length_take, spelling, List.length_map]
      omega
    rw [List.prefix_iff_eq_take.1 hprefix, hlength]
  · intro h
    rw [keyUpTo_congr hp hq h.symm, ← q.keyUpTo_append (i + 1)]
    exact List.prefix_append _ _

/-! ## Where patterns part -/

/-- Segment `i` is the first that two patterns spell differently, letter case aside. -/
structure PartAt (p q : Pattern) (i : Nat) (s s' : Segment) : Prop where
  left : p.segments[i]? = some s
  right : q.segments[i]? = some s'
  before : p.spelling.take i = q.spelling.take i
  apart : Text.lower (Segment.text s) ≠ Text.lower (Segment.text s')

/-- Patterns that spell the same parts and are not spelled alike part at a segment, and both
segments spell the same part. -/
theorem exists_partAt {ss ss' : List Segment} {parts : List Text}
    (h : List.Forall₂ Segment.Spells ss parts) (h' : List.Forall₂ Segment.Spells ss' parts)
    (hne : (Pattern.mk ss).spelling ≠ (Pattern.mk ss').spelling) :
    ∃ i s s' v, PartAt ⟨ss⟩ ⟨ss'⟩ i s s' ∧ s.Spells v ∧ s'.Spells v := by
  induction h generalizing ss' with
  | nil =>
    cases h'
    exact absurd rfl hne
  | @cons s v ss parts hs h ih =>
    cases h' with
    | @cons s' _ ss' _ hs' h' =>
      by_cases hlower : Text.lower (Segment.text s) = Text.lower (Segment.text s')
      · have hrest : (Pattern.mk ss).spelling ≠ (Pattern.mk ss').spelling :=
          fun hrest => hne (List.cons_eq_cons.2 ⟨hlower, hrest⟩)
        obtain ⟨i, s₁, s₂, w, hpart, hw⟩ := ih h' hrest
        refine ⟨i + 1, s₁, s₂, w, ⟨hpart.left, hpart.right, ?_, hpart.apart⟩, hw⟩
        exact List.cons_eq_cons.2 ⟨hlower, hpart.before⟩
      · exact ⟨0, s, s', v, ⟨rfl, rfl, rfl, hlower⟩, hs, hs'⟩

/-- What a walkable pattern spells has no slashes but those between the parts. -/
theorem Formed.notMem_of_spells (hp : p.Formed) (hwalk : p.isWalkable = true) {parts : List Text}
    (hparts : List.Forall₂ Segment.Spells p.segments parts) : ∀ v ∈ parts, '/' ∉ v := by
  have hspelled : ∀ s ∈ p.segments, ∀ v, s.Spells v → '/' ∉ v := by
    intro s hs v hv
    have hinner : ∀ token ∈ s, Token.Inner token := by
      rcases hp.cases s hs with ⟨name, -, rfl⟩ | hinner
      · cases List.all_eq_true.1 hwalk _ hs
      · exact hinner
    rw [Segment.mem_iff_of_spells hinner (by decide) hv]
    exact hp.noSlash s hs
  clear hp hwalk
  generalize p.segments = ss at hparts hspelled
  induction hparts with
  | nil => exact nofun
  | cons hv hparts ih =>
    obtain ⟨hs, hspelled⟩ := List.forall_mem_cons.1 hspelled
    exact List.forall_mem_cons.2 ⟨hs _ hv, ih hspelled⟩

/-- Walkable patterns that match the same path part at a segment, if they are not spelled alike, and
both segments spell the same part of the path. -/
theorem exists_partAt_of_isMatch (hp : p.Formed) (hq : q.Formed) (hwalk : p.isWalkable = true)
    (hwalk' : q.isWalkable = true) {path : Text} (hmatch : p.regex.isMatch path = true)
    (hmatch' : q.regex.isMatch path = true) (hne : p.spelling ≠ q.spelling) :
    ∃ i s s' v, PartAt p q i s s' ∧ s.Spells v ∧ s'.Spells v := by
  rw [isMatch_regex] at hmatch hmatch'
  obtain ⟨parts, hparts, rfl⟩ := hmatch
  obtain ⟨parts', hparts', hsame⟩ := hmatch'
  obtain rfl := Path.ofParts_inj (hp.notMem_of_spells hwalk hparts)
    (hq.notMem_of_spells hwalk' hparts') hsame
  exact exists_partAt hparts hparts' hne

end Pattern

end HttpRouting
