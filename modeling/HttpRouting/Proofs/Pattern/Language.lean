import HttpRouting.Proofs.Path
import HttpRouting.Proofs.Pattern.Walkable

/-!
# The paths of a pattern

What a pattern says of a path, without a matcher: each segment stands after a slash, and each of its
tokens for a piece of text. The expression of the pattern matches exactly these paths
(`Pattern.isMatch_regex`).
-/

namespace HttpRouting

/-- The text is one that the token stands for. -/
def Token.Spells : Token → Text → Prop
  | .literal s, t => Text.lower t = Text.lower s
  | .param _ type, t => type.accepts t = true
  | .catchAll _, t => '\n' ∉ t

/-- The text is made of pieces, one for each token. -/
def Segment.Spells : Segment → Text → Prop
  | [], t => t = []
  | token :: s, t => ∃ u v, t = u ++ v ∧ token.Spells u ∧ Segment.Spells s v

/-- The path is made of parts, one for each segment. -/
def Pattern.Spells (p : Pattern) (path : Text) : Prop :=
  ∃ parts, List.Forall₂ Segment.Spells p.segments parts ∧ path = Path.ofParts parts

theorem Pattern.text_eq (p : Pattern) : p.text = Path.ofParts (p.segments.map Segment.text) := by
  rw [Path.ofParts, List.flatMap_map]
  rfl

/-! ## Matching -/

namespace Regex

variable {r : Regex} {t : Text}

theorem isMatch_nil : isMatch [] t = true ↔ t = [] := by
  rw [isMatch, capture?_nil]
  split
  · next h => exact iff_of_true rfl h
  · next h => exact iff_of_false nofun h

theorem isMatch_slash :
    isMatch (.slash :: r) t = true ↔ ∃ v, t = '/' :: v ∧ isMatch r v = true := by
  simp only [isMatch, capture?, Option.isSome_bind, Option.any_eq_true,
    Text.dropStart?_beq_eq_some_iff]
  rfl

/-- A longest value is found if there is any value, with a match of the rest behind it. -/
theorem isSome_value? (admits : Char → Bool) (r : Regex) (t : Text) :
    (value? admits r t).isSome = true ↔
      ∃ u v, t = u ++ v ∧ u.all admits = true ∧ isMatch r v = true := by
  induction t with
  | nil =>
    rw [value?_nil, Option.isSome_map]
    constructor
    · exact fun h => ⟨[], [], rfl, rfl, h⟩
    · rintro ⟨u, v, huv, -, h⟩
      obtain ⟨-, rfl⟩ := List.append_eq_nil_iff.1 huv.symm
      exact h
  | cons c t ih =>
    rw [value?_cons, Option.isSome_or, Bool.or_eq_true, Option.isSome_map]
    constructor
    · rintro (h | h)
      · split at h
        · next hc =>
          rw [Option.isSome_map] at h
          obtain ⟨u, v, rfl, hu, hv⟩ := ih.1 h
          exact ⟨c :: u, v, rfl, by rw [List.all_cons, hc, hu]; rfl, hv⟩
        · cases h
      · exact ⟨[], c :: t, rfl, rfl, h⟩
    · rintro ⟨_ | ⟨d, u⟩, v, huv, hu, hv⟩
      · exact .inr (huv ▸ hv)
      · obtain ⟨rfl, rfl⟩ := List.cons.inj huv
        obtain ⟨hc, hu⟩ := Bool.and_eq_true_iff.1 (List.all_cons.symm.trans hu)
        rw [if_pos hc, Option.isSome_map]
        exact .inl (ih.2 ⟨u, v, rfl, hu, hv⟩)

theorem isMatch_run {type : ParamType} : isMatch (.run type :: r) t = true ↔
    ∃ u v, t = u ++ v ∧ type.accepts u = true ∧ isMatch r v = true := by
  cases t with
  | nil =>
    rw [isMatch, capture?_run_nil]
    refine iff_of_false nofun ?_
    rintro ⟨u, v, huv, hu, -⟩
    obtain ⟨rfl, -⟩ := List.append_eq_nil_iff.1 huv.symm
    cases hu
  | cons c t =>
    rw [isMatch, capture?_run_cons]
    constructor
    · intro h
      split at h
      · next hc =>
        rw [Option.isSome_map] at h
        obtain ⟨u, v, rfl, hu, hv⟩ := (isSome_value? _ r t).1 h
        exact ⟨c :: u, v, rfl, by rw [ParamType.accepts_cons, hc, hu]; rfl, hv⟩
      · cases h
    · rintro ⟨_ | ⟨d, u⟩, v, huv, hu, hv⟩
      · cases hu
      · obtain ⟨rfl, rfl⟩ := List.cons.inj huv
        obtain ⟨hc, hu⟩ := Bool.and_eq_true_iff.1 ((ParamType.accepts_cons ..).symm.trans hu)
        rw [if_pos hc, Option.isSome_map]
        exact (isSome_value? _ r _).2 ⟨u, v, rfl, hu, hv⟩

theorem all_ne_lineFeed {u : Text} : u.all (· ≠ '\n') = true ↔ '\n' ∉ u := by
  simp [List.forall_mem_ne']

theorem isMatch_rest : isMatch (.rest :: r) t = true ↔
    ∃ u v, t = u ++ v ∧ '\n' ∉ u ∧ isMatch r v = true := by
  rw [isMatch, capture?_rest, Option.isSome_map, isSome_value?]
  simp only [all_ne_lineFeed]

theorem isMatch_literal {s : Text} : isMatch (s.foldr consChar [] ++ r) t = true ↔
    ∃ u v, t = u ++ v ∧ Text.lower u = Text.lower s ∧ isMatch r v = true := by
  simp only [isMatch, capture?_literal, Option.isSome_bind, Option.any_eq_true,
    Text.dropStart?_sameFolded_eq_some_iff]
  constructor
  · rintro ⟨v, ⟨u, rfl, hu⟩, hv⟩
    exact ⟨u, v, rfl, hu, hv⟩
  · rintro ⟨u, v, rfl, hu, hv⟩
    exact ⟨v, ⟨u, rfl, hu⟩, hv⟩

theorem isMatch_ofToken {token : Token} : isMatch (ofToken token ++ r) t = true ↔
    ∃ u v, t = u ++ v ∧ token.Spells u ∧ isMatch r v = true := by
  cases token with
  | literal s => exact isMatch_literal
  | param name type => exact isMatch_run
  | catchAll name => exact isMatch_rest

theorem isMatch_tokens {s : Segment} : isMatch (s.flatMap ofToken ++ r) t = true ↔
    ∃ u v, t = u ++ v ∧ s.Spells u ∧ isMatch r v = true := by
  induction s generalizing t with
  | nil =>
    constructor
    · exact fun h => ⟨[], t, rfl, rfl, h⟩
    · rintro ⟨u, v, rfl, rfl, h⟩
      exact h
  | cons token s ih =>
    rw [List.flatMap_cons, List.append_assoc, isMatch_ofToken]
    simp only [ih]
    constructor
    · rintro ⟨u, _, rfl, hu, u', v, rfl, hu', hv⟩
      exact ⟨u ++ u', v, (List.append_assoc ..).symm, ⟨u, u', rfl, hu, hu'⟩, hv⟩
    · rintro ⟨_, v, rfl, ⟨u, u', rfl, hu, hu'⟩, hv⟩
      exact ⟨u, u' ++ v, List.append_assoc .., hu, u', v, rfl, hu', hv⟩

theorem isMatch_segments {ss : List Segment} : isMatch (ss.flatMap ofSegment) t = true ↔
    ∃ parts, List.Forall₂ Segment.Spells ss parts ∧ t = Path.ofParts parts := by
  induction ss generalizing t with
  | nil =>
    rw [List.flatMap_nil, isMatch_nil]
    constructor
    · exact fun h => ⟨[], .nil, h⟩
    · rintro ⟨_, ⟨⟩, h⟩
      exact h
  | cons s ss ih =>
    rw [List.flatMap_cons, ofSegment, List.cons_append, isMatch_slash]
    simp only [isMatch_tokens, ih]
    constructor
    · rintro ⟨_, rfl, u, _, rfl, hu, parts, hparts, rfl⟩
      exact ⟨u :: parts, .cons hu hparts, rfl⟩
    · rintro ⟨_, _ | ⟨hu, hparts⟩, rfl⟩
      exact ⟨_, rfl, _, _, rfl, hu, _, hparts, rfl⟩

end Regex

/-- The expression of a pattern matches the paths that its segments spell. -/
theorem Pattern.isMatch_regex {p : Pattern} {t : Text} :
    p.regex.isMatch t = true ↔ p.Spells t :=
  Regex.isMatch_segments

end HttpRouting
