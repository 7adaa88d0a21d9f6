import HttpRouting.Pattern.Subsumption
import HttpRouting.Proofs.Pattern.Segments
import HttpRouting.Proofs.Router.Keys

/-!
# Subsumption is sound

If one pattern is found to subsume another, it has every path of the other that holds no line feed
(`Pattern.isMatch_of_subsumes`): the one sign that a catch-all leaves out. A pattern that is not
walkable is subsumed only by one that is not walkable either.
-/

namespace HttpRouting

theorem ParamType.accepts_word {type : ParamType} {u : Text} (h : type.accepts u = true) :
    ParamType.word.accepts u = true := by
  obtain ⟨hne, hall⟩ := Bool.and_eq_true_iff.1 h
  refine Bool.and_eq_true_iff.2 ⟨hne, List.all_eq_true.2 fun c hc => ?_⟩
  exact isWordChar_of_admits (List.all_eq_true.1 hall c hc)

theorem ParamType.accepts_congr (type : ParamType) {u v : Text}
    (h : Text.lower u = Text.lower v) : type.accepts u = type.accepts v := by
  have hlower : ∀ t, type.accepts (Text.lower t) = type.accepts t :=
    Shape.accepts_lower (.param type)
  rw [← hlower u, h, hlower]

namespace Segment

variable {mine theirs : Segment} {u : Text}

/-- A segment of literals spells its text, letter case aside. -/
theorem spells_of_literal? {s : Segment} {a : Text} (h : literal? s = some a) :
    s.Spells u ↔ Text.lower u = Text.lower a := by
  induction s generalizing a u with
  | nil =>
    cases h
    exact Text.lower_eq_nil.symm
  | cons token s ih =>
    cases token with
    | literal t =>
      obtain ⟨b, hb, rfl⟩ := Option.map_eq_some_iff.1 h
      rw [Text.lower_append, Text.lower, List.map_eq_append_iff]
      constructor
      · rintro ⟨x, v, rfl, hx, hv⟩
        exact ⟨x, v, rfl, hx, (ih hb).1 hv⟩
      · rintro ⟨x, v, rfl, hx, hv⟩
        exact ⟨x, v, rfl, hx, (ih hb).2 hv⟩
    | param name type => cases h
    | catchAll name => cases h

theorem isLiteral_of_literal? {s : Segment} {a : Text} (h : literal? s = some a) :
    isLiteral s = true := by
  induction s generalizing a with
  | nil => rfl
  | cons token s ih =>
    cases token with
    | literal t =>
      obtain ⟨b, hb, -⟩ := Option.map_eq_some_iff.1 h
      exact ih hb
    | param name type => cases h
    | catchAll name => cases h

theorem spells_of_subsumes (h : subsumes mine theirs = true) (hu : theirs.Spells u) :
    mine.Spells u := by
  unfold subsumes at h
  split at h
  · exact spells_param.2 (ParamType.accepts_word (spells_param.1 hu))
  · next type =>
    obtain rfl : type = .int := of_decide_eq_true h
    exact spells_param.2 (spells_param.1 hu)
  · next type _ _ =>
    obtain ⟨a, ha, haccepts⟩ := (Option.any_eq_true _ _).1 h
    rw [spells_param, type.accepts_congr ((spells_of_literal? ha).1 hu)]
    exact haccepts
  · split at h
    · next a b ha hb =>
      rw [spells_of_literal? ha, (spells_of_literal? hb).1 hu]
      exact (of_decide_eq_true h).symm
    · cases h

/-- A segment that mixes literals with parameters is never found subsumed, nor is a catch-all. -/
theorem isLiteral_or_isParam_of_subsumes (h : subsumes mine theirs = true) :
    (isLiteral theirs || isParam theirs) = true := by
  unfold subsumes at h
  split at h
  · rfl
  · rfl
  · obtain ⟨a, ha, -⟩ := (Option.any_eq_true _ _).1 h
    rw [isLiteral_of_literal? ha, Bool.true_or]
  · split at h
    · next a b ha hb => rw [isLiteral_of_literal? hb, Bool.true_or]
    · cases h

/-- Nothing stands behind a catch-all, if only the last segment may be one. -/
theorem eq_nil_of_isCatchAll {s : Segment} {ss : List Segment}
    (h : ∀ s' ∈ (s :: ss).dropLast, isCatchAll s' = false) (hs : isCatchAll s = true) :
    ss = [] := by
  by_contra hne
  rw [List.dropLast_cons_of_ne_nil hne] at h
  rw [h s List.mem_cons_self] at hs
  cases hs

theorem forall_dropLast_of_cons {s : Segment} {ss : List Segment}
    (h : ∀ s' ∈ (s :: ss).dropLast, isCatchAll s' = false) :
    ∀ s' ∈ ss.dropLast, isCatchAll s' = false := by
  intro s' hs'
  refine h s' ?_
  rw [List.dropLast_cons_of_ne_nil (by rintro rfl; cases hs')]
  exact List.mem_cons_of_mem _ hs'

end Segment

namespace Pattern

variable {p q : Pattern} {path : Text}

/-- Segment by segment, up to a catch-all, which takes what is left. -/
theorem spells_of_segmentsSubsume {ms ts : List Segment} {parts : List Text}
    (hms : ∀ s ∈ ms.dropLast, Segment.isCatchAll s = false) (h : segmentsSubsume ms ts = true)
    (hparts : List.Forall₂ Segment.Spells ts parts) (hline : '\n' ∉ Path.ofParts parts) :
    ∃ parts', List.Forall₂ Segment.Spells ms parts' ∧
      Path.ofParts parts = Path.ofParts parts' := by
  induction ms generalizing ts parts with
  | nil =>
    obtain rfl := List.isEmpty_iff.1 h
    cases hparts
    exact ⟨[], .nil, rfl⟩
  | cons mine ms ih =>
    cases hparts with
    | nil => cases h
    | @cons theirs u ts parts hu hparts =>
      rw [Path.ofParts_cons, List.mem_cons, List.mem_append] at hline
      by_cases hcatch : Segment.isCatchAll mine = true
      · obtain rfl := Segment.eq_nil_of_isCatchAll hms hcatch
        obtain ⟨name, rfl⟩ := Segment.isCatchAll_cases hcatch
        refine ⟨[u ++ Path.ofParts parts], .cons (Segment.spells_catchAll.2 ?_) .nil, ?_⟩
        · exact fun hm => hline (.inr (List.mem_append.1 hm))
        · simp
      · rw [segmentsSubsume, Bool.or_eq_true, or_iff_right hcatch, Bool.and_eq_true] at h
        have hrest := Segment.forall_dropLast_of_cons hms
        obtain ⟨parts', hparts', heq⟩ := ih hrest h.2 hparts fun hm => hline (.inr (.inr hm))
        exact ⟨u :: parts', .cons (Segment.spells_of_subsumes h.1 hu) hparts', by
          rw [Path.ofParts_cons, Path.ofParts_cons, heq]⟩

/-- What spells a path without line feeds. -/
theorem Formed.lineFeed_notMem_ofParts (hq : q.Formed) (hline : '\n' ∉ q.text)
    {parts : List Text} (hparts : List.Forall₂ Segment.Spells q.segments parts) :
    '\n' ∉ Path.ofParts parts := by
  have hsegments : ∀ s ∈ q.segments, '\n' ∉ Segment.text s := fun s hs hm =>
    hline (List.mem_flatMap.2 ⟨s, hs, List.mem_cons_of_mem _ hm⟩)
  have hspelled : ∀ s ∈ q.segments, ∀ u, s.Spells u → '\n' ∉ u := fun s hs u hu =>
    hq.lineFeed_notMem hs (hsegments s hs) hu
  clear hline hsegments
  generalize q.segments = ss at hparts hspelled
  induction hparts with
  | nil => exact List.not_mem_nil
  | cons hu hparts ih =>
    obtain ⟨hs, hspelled⟩ := List.forall_mem_cons.1 hspelled
    rw [Path.ofParts_cons, List.mem_cons, List.mem_append, not_or, not_or]
    exact ⟨by decide, hs _ hu, ih hspelled⟩

/-- A pattern has every path of one that it is found to subsume, as long as the text of that one
holds no line feed. -/
theorem isMatch_of_subsumes (hp : p.Formed) (hq : q.Formed) (h : p.subsumes q = true)
    (hline : '\n' ∉ q.text) (hmatch : q.regex.isMatch path = true) :
    p.regex.isMatch path = true := by
  rw [isMatch_regex] at hmatch ⊢
  obtain ⟨parts, hparts, rfl⟩ := hmatch
  exact spells_of_segmentsSubsume (fun s hs => (hp.front s hs).1) h hparts
    (hq.lineFeed_notMem_ofParts hline hparts)

theorem isWalkable_of_subsumes (h : p.subsumes q = true) (hp : p.isWalkable = true) :
    q.isWalkable = true := by
  obtain ⟨ms⟩ := p
  obtain ⟨ts⟩ := q
  simp only [subsumes, isWalkable] at h hp ⊢
  induction ms generalizing ts with
  | nil =>
    obtain rfl := List.isEmpty_iff.1 h
    rfl
  | cons mine ms ih =>
    cases ts with
    | nil => cases h
    | cons theirs ts =>
      obtain ⟨hmine, hp⟩ := Bool.and_eq_true_iff.1 (List.all_cons.symm.trans hp)
      have hcatch : ¬ Segment.isCatchAll mine = true := by
        intro hcatch
        obtain ⟨name, rfl⟩ := Segment.isCatchAll_cases hcatch
        cases hmine
      rw [segmentsSubsume, Bool.or_eq_true, or_iff_right hcatch, Bool.and_eq_true] at h
      rw [List.all_cons, Segment.isLiteral_or_isParam_of_subsumes h.1, ih hp ts h.2]
      rfl

end Pattern

end HttpRouting
