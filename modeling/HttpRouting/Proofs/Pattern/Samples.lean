import HttpRouting.Proofs.Pattern.Segments

/-!
# Sample paths

Every pattern that was read has a path: `Pattern.sample`, with a digit for each parameter. It is
squeezed, and keeps its trailing slash exactly where the text of the pattern does. Where the text
loses its slash, no path of the pattern is one from which the slash has been trimmed
(`Pattern.Formed.not_spells_trimSlash`).
-/

namespace HttpRouting

/-- A text that the token stands for. -/
def Token.sample : Token → Text
  | .literal t => t
  | .param _ _ | .catchAll _ => ['0']

def Segment.sample (s : Segment) : Text := s.flatMap Token.sample

/-- A path of the pattern. -/
def Pattern.sample (p : Pattern) : Text := Path.ofParts (p.segments.map Segment.sample)

theorem Token.spells_sample (token : Token) : token.Spells token.sample := by
  cases token with
  | literal t => exact rfl
  | param name type =>
    show type.accepts ['0'] = true
    cases type <;> decide
  | catchAll name =>
    show '\n' ∉ ['0']
    decide

theorem Segment.spells_sample (s : Segment) : s.Spells s.sample := by
  induction s with
  | nil => exact rfl
  | cons token s ih => exact ⟨token.sample, sample s, rfl, token.spells_sample, ih⟩

theorem Segment.spells_samples (ss : List Segment) :
    List.Forall₂ Segment.Spells ss (ss.map sample) :=
  List.forall₂_map_right_iff.2 (List.forall₂_same.2 fun s _ => s.spells_sample)

/-- What a segment spells is like its text, unless the segment is a catch-all. -/
theorem Segment.similarPart_of_spells {s : Segment} (hs : ∀ token ∈ s, Token.Inner token)
    (hslash : '/' ∉ text s) {u : Text} (hu : s.Spells u) : Path.SimilarPart u (text s) where
  noSlash := ⟨by rwa [mem_iff_of_spells hs (by decide) hu], hslash⟩
  empty := eq_nil_iff_of_spells hs hu
  dot := mem_iff_of_spells hs (by decide) hu

namespace Pattern

theorem spells_sample (p : Pattern) : p.Spells p.sample :=
  ⟨_, Segment.spells_samples p.segments, rfl⟩

namespace Formed

variable {p : Pattern} {path : Text}

theorem similarPart_sample (hp : p.Formed) {s : Segment} (hs : s ∈ p.segments) :
    Path.SimilarPart (Segment.sample s) (Segment.text s) := by
  have hslash := hp.noSlash s hs
  rcases hp.cases s hs with ⟨name, hname, rfl⟩ | hinner
  · have hdot := Text.not_mem_of_isName (c := '.') (by decide) hname
    have hsample : '/' ∉ ['0'] ∧ '.' ∉ ['0'] := by decide
    refine ⟨⟨hsample.1, hslash⟩, iff_of_false nofun nofun, iff_of_false hsample.2 ?_⟩
    simp [Segment.text, Token.text, hdot]
  · exact Segment.similarPart_of_spells hinner hslash s.spells_sample

theorem squeezed_sample (hp : p.Formed) : Path.Squeezed p.sample := by
  refine Path.squeezed_ofParts (by simpa using hp.nonempty) ?_ ?_
  · intro u hu
    obtain ⟨s, hs, rfl⟩ := List.mem_map.1 hu
    exact (hp.similarPart_sample hs).noSlash.1
  · intro u hu
    rw [← List.map_dropLast] at hu
    obtain ⟨s, hs, rfl⟩ := List.mem_map.1 hu
    exact mt (hp.similarPart_sample (List.dropLast_subset _ hs)).empty.1 (hp.front s hs).2

theorem trimSlash_sample_iff (hp : p.Formed) :
    Path.trimSlash p.sample = p.sample ↔ Path.trimSlash p.text = p.text := by
  rw [text_eq]
  refine Path.trimSlash_ofParts_congr ?_
  rw [List.forall₂_map_left_iff, List.forall₂_map_right_iff, List.forall₂_same]
  exact fun s hs => hp.similarPart_sample hs

/-- A text that ends with a catch-all has no slash to lose. -/
theorem inner_of_trimSlash_ne (hp : p.Formed) (h : Path.trimSlash p.text ≠ p.text) {s : Segment}
    (hs : s ∈ p.segments) : ∀ token ∈ s, Token.Inner token := by
  rcases hp.cases s hs with ⟨name, hname, rfl⟩ | hinner
  · obtain ⟨front, s, hsegments⟩ :=
      (List.eq_nil_or_concat p.segments).resolve_left hp.nonempty
    rw [List.concat_eq_append] at hsegments
    have hslash := hp.noSlash _ hs
    have hfront := hp.front
    rw [hsegments, List.dropLast_concat] at hfront
    rw [hsegments, List.mem_append] at hs
    rcases hs with hs | hs
    · cases (hfront _ hs).1
    · refine absurd ?_ h
      rw [text_eq, hsegments, ← List.mem_singleton.1 hs, List.map_append]
      exact Path.trimSlash_ofParts _ (List.cons_ne_nil _ _) hslash
  · exact hinner

/-- Where the text of a pattern loses its trailing slash, so does every path of it. -/
theorem not_spells_trimSlash (hp : p.Formed) (h : Path.trimSlash p.text ≠ p.text)
    (hpath : Path.Squeezed path) : ¬ p.Spells (Path.trimSlash path) := by
  rintro ⟨parts, hparts, htrim⟩
  have hsimilar : List.Forall₂ Path.SimilarPart parts (p.segments.map Segment.text) := by
    rw [List.forall₂_map_right_iff]
    refine List.Forall₂.flip ?_
    have hmem : ∀ s ∈ p.segments, ∀ u, s.Spells u → Path.SimilarPart u (Segment.text s) :=
      fun s hs u hu => Segment.similarPart_of_spells (hp.inner_of_trimSlash_ne h hs)
        (hp.noSlash s hs) hu
    exact ((List.forall₂_and_left _ _).2 ⟨fun s hs => hs, hparts⟩).imp
      fun s u hsu => hmem s hsu.1 u hsu.2
  have hkept := hpath.trimSlash_trimSlash
  rw [htrim, Path.trimSlash_ofParts_congr hsimilar, ← text_eq] at hkept
  exact h hkept

end Formed

end Pattern

end HttpRouting
