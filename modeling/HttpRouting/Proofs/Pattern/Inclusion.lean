import HttpRouting.Proofs.Pattern.Samples
import HttpRouting.Proofs.Pattern.Spelling

/-!
# Subsumption is exact

On patterns without mixed segments `Pattern.subsumes` decides inclusion: where it finds nothing, a
path tells the two patterns apart. A part that one segment spells and another does not is found for
each way in which `Segment.subsumes` can fail (`Segment.subsumes_of_spells`).
-/

namespace HttpRouting

/-! ## Segments -/

namespace Segment

/-- The segment is literal text, a single parameter or a catch-all. -/
def isPlain (s : Segment) : Bool := isLiteral s || isParam s || isCatchAll s

variable {mine theirs other : Segment} {u : Text}

theorem subsumes_param_of_isLiteral (name : Text) (type : ParamType) (h : isLiteral theirs = true) :
    subsumes [.param name type] theirs = type.accepts (text theirs) := by
  have hliteral : ∀ t rest, subsumes [.param name type] (.literal t :: rest) =
      (literal? (.literal t :: rest)).any type.accepts := by
    cases type <;> exact fun _ _ => rfl
  cases theirs with
  | nil => cases type <;> rfl
  | cons token rest =>
    cases token with
    | literal t => rw [hliteral, literal?_of_isLiteral h, Option.any_some]
    | param | catchAll => cases h

theorem subsumes_of_isLiteral (hmine : isLiteral mine = true) (htheirs : isLiteral theirs = true) :
    subsumes mine theirs = decide (Text.lower (text mine) = Text.lower (text theirs)) := by
  unfold subsumes
  split
  · cases hmine
  · cases hmine
  · cases hmine
  · rw [literal?_of_isLiteral hmine, literal?_of_isLiteral htheirs]

/-- A number tells literal text from a parameter, and a letter tells a word from a number. -/
theorem subsumes_of_spells (hmine : (isLiteral mine || isParam mine) = true)
    (htheirs : (isLiteral theirs || isParam theirs) = true)
    (h : ∀ u, theirs.Spells u → mine.Spells u) : subsumes mine theirs = true := by
  rw [Bool.or_eq_true] at hmine htheirs
  rcases hmine with hmine | hmine <;> rcases htheirs with htheirs | htheirs
  · have hlower := h _ ((spells_of_isLiteral htheirs).2 rfl)
    rw [spells_of_isLiteral hmine] at hlower
    rw [subsumes_of_isLiteral hmine htheirs]
    exact decide_eq_true hlower.symm
  · obtain ⟨name, type, rfl⟩ := isParam_cases htheirs
    have hdigits : type.accepts ['0'] = true ∧ type.accepts ['0', '0'] = true := by
      cases type <;> decide
    have hone := (spells_of_isLiteral hmine).1 (h _ (spells_param.2 hdigits.1))
    have htwo := (spells_of_isLiteral hmine).1 (h _ (spells_param.2 hdigits.2))
    cases hone.trans htwo.symm
  · obtain ⟨name, type, rfl⟩ := isParam_cases hmine
    have haccepts := h _ ((spells_of_isLiteral htheirs).2 rfl)
    rw [subsumes_param_of_isLiteral name type htheirs]
    exact spells_param.1 haccepts
  · obtain ⟨name, type, rfl⟩ := isParam_cases hmine
    obtain ⟨name', type', rfl⟩ := isParam_cases htheirs
    cases type with
    | word => rfl
    | int =>
      cases type' with
      | int => rfl
      | word => cases spells_param.1 (h ['a'] (spells_param.2 rfl))

theorem isLiteral_or_isParam_of_subsumes_left (h : subsumes mine theirs = true) :
    (isLiteral mine || isParam mine) = true := by
  unfold subsumes at h
  split at h
  · rfl
  · rfl
  · rfl
  · split at h
    · next a b ha hb => rw [isLiteral_of_literal? ha, Bool.true_or]
    · cases h

theorem subsumes_refl (h : (isLiteral mine || isParam mine) = true) : subsumes mine mine = true :=
  subsumes_of_spells h h fun _ hu => hu

theorem subsumes_trans (h : subsumes mine theirs = true) (h' : subsumes theirs other = true) :
    subsumes mine other = true :=
  subsumes_of_spells (isLiteral_or_isParam_of_subsumes_left h)
    (isLiteral_or_isParam_of_subsumes h') fun _ hu => spells_of_subsumes h (spells_of_subsumes h' hu)

/-- Only a catch-all spells all parts. -/
theorem exists_not_spells (h : (isLiteral mine || isParam mine) = true) :
    ∃ u, '/' ∉ u ∧ '\n' ∉ u ∧ ¬ mine.Spells u := by
  rcases Bool.or_eq_true_iff.1 h with h | h
  · cases htext : text mine with
    | nil =>
      refine ⟨['0'], by decide, by decide, ?_⟩
      rw [spells_of_isLiteral h, htext]
      exact nofun
    | cons c t =>
      refine ⟨[], List.not_mem_nil, List.not_mem_nil, ?_⟩
      rw [spells_of_isLiteral h, htext]
      exact nofun
  · obtain ⟨name, type, rfl⟩ := isParam_cases h
    refine ⟨[], List.not_mem_nil, List.not_mem_nil, ?_⟩
    rw [spells_param]
    exact nofun

/-- What the segment spells ends at a slash, unless it is a catch-all. -/
def Bounded (s : Segment) : Prop :=
  isCatchAll s = true ∨ (isLiteral s || isParam s) = true ∧ ∀ u, s.Spells u → '/' ∉ u

end Segment

/-! ## Patterns -/

namespace Pattern

variable {p q : Pattern}

/-- No segment mixes literals with parameters, and none has several parameters. -/
def isPlain (p : Pattern) : Bool := p.segments.all Segment.isPlain

theorem Formed.bounded (hp : p.Formed) (hplain : p.isPlain = true) :
    ∀ s ∈ p.segments, Segment.Bounded s := by
  intro s hs
  have hplain := List.all_eq_true.1 hplain s hs
  rw [Segment.isPlain, Bool.or_eq_true] at hplain
  rcases hp.cases s hs with ⟨name, -, rfl⟩ | hinner
  · exact .inl rfl
  · refine hplain.symm.imp_right fun hplain => ⟨hplain, fun u hu => ?_⟩
    rw [Segment.mem_iff_of_spells hinner (by decide) hu]
    exact hp.noSlash s hs

/-- If nothing tells two lists of segments apart, the one subsumes the other. -/
theorem segmentsSubsume_of_spells {ms ts : List Segment} (hms : ∀ s ∈ ms, Segment.Bounded s)
    (hts : ∀ s ∈ ts, Segment.Bounded s) (hlast : ∀ s ∈ ts.dropLast, Segment.isCatchAll s = false)
    (h : ∀ parts, List.Forall₂ Segment.Spells ts parts →
      ∃ parts', List.Forall₂ Segment.Spells ms parts' ∧
        Path.ofParts parts = Path.ofParts parts') :
    segmentsSubsume ms ts = true := by
  induction ms generalizing ts with
  | nil =>
    cases ts with
    | nil => rfl
    | cons theirs ts =>
      obtain ⟨_, ⟨⟩, heq⟩ := h _ (Segment.spells_samples (theirs :: ts))
      cases heq
  | cons mine ms ih =>
    obtain ⟨hmine, hms⟩ := List.forall_mem_cons.1 hms
    cases ts with
    | nil =>
      obtain ⟨_, ⟨⟩, heq⟩ := h [] .nil
      cases heq
    | cons theirs ts =>
      obtain ⟨htheirs, hts⟩ := List.forall_mem_cons.1 hts
      rw [segmentsSubsume, Bool.or_eq_true, Bool.and_eq_true]
      rcases hmine with hcatch | ⟨hmine, hslash⟩
      · exact .inl hcatch
      rcases htheirs with hcatch | ⟨htheirs, hslash'⟩
      · obtain rfl := Segment.eq_nil_of_isCatchAll hlast hcatch
        obtain ⟨name, rfl⟩ := Segment.isCatchAll_cases hcatch
        obtain ⟨u, hu, hline, hnot⟩ := Segment.exists_not_spells hmine
        obtain ⟨_, hparts, heq⟩ := h [u] (.cons (Segment.spells_catchAll.2 hline) .nil)
        obtain _ | ⟨hv, -⟩ := hparts
        obtain ⟨rfl, -⟩ := Path.ofParts_cons_inj hu (hslash _ hv) heq
        exact absurd hv hnot
      · have hcut : ∀ u us, theirs.Spells u → List.Forall₂ Segment.Spells ts us →
            mine.Spells u ∧ ∃ parts, List.Forall₂ Segment.Spells ms parts ∧
              Path.ofParts us = Path.ofParts parts := by
          intro u us hu hus
          obtain ⟨_, hparts, heq⟩ := h (u :: us) (.cons hu hus)
          obtain _ | ⟨hv, hvs⟩ := hparts
          obtain ⟨rfl, hrest⟩ := Path.ofParts_cons_inj (hslash' _ hu) (hslash _ hv) heq
          exact ⟨hv, _, hvs, hrest⟩
        have hrest := Segment.forall_dropLast_of_cons hlast
        refine .inr ⟨Segment.subsumes_of_spells hmine htheirs ?_, ih hms hts hrest ?_⟩
        · exact fun u hu => (hcut u _ hu (Segment.spells_samples ts)).1
        · exact fun us hus => (hcut _ us theirs.spells_sample hus).2

theorem subsumes_of_isMatch (hp : p.Formed) (hq : q.Formed) (hplain : p.isPlain = true)
    (hplain' : q.isPlain = true)
    (h : ∀ path, q.regex.isMatch path = true → p.regex.isMatch path = true) :
    p.subsumes q = true := by
  refine segmentsSubsume_of_spells (hp.bounded hplain) (hq.bounded hplain')
    (fun s hs => (hq.front s hs).1) ?_
  intro parts hparts
  exact isMatch_regex.1 (h _ (isMatch_regex.2 ⟨parts, hparts, rfl⟩))

theorem subsumes_refl (hplain : p.isPlain = true) : p.subsumes p = true := by
  obtain ⟨ss⟩ := p
  simp only [isPlain, subsumes] at hplain ⊢
  induction ss with
  | nil => rfl
  | cons s ss ih =>
    obtain ⟨hs, hss⟩ := Bool.and_eq_true_iff.1 (List.all_cons.symm.trans hplain)
    rw [segmentsSubsume, Bool.or_eq_true, Bool.and_eq_true]
    rw [Segment.isPlain, Bool.or_eq_true] at hs
    exact hs.symm.imp_right fun hs => ⟨Segment.subsumes_refl hs, ih hss⟩

theorem segmentsSubsume_trans {ls ms ts : List Segment} (h : segmentsSubsume ls ms = true)
    (h' : segmentsSubsume ms ts = true) : segmentsSubsume ls ts = true := by
  induction ls generalizing ms ts with
  | nil =>
    obtain rfl := List.isEmpty_iff.1 h
    exact h'
  | cons mine ls ih =>
    cases ms with
    | nil => cases h
    | cons theirs ms =>
      cases ts with
      | nil => cases h'
      | cons other ts =>
        simp only [segmentsSubsume, Bool.or_eq_true, Bool.and_eq_true] at h h' ⊢
        rcases h with hcatch | ⟨hmine, hrest⟩
        · exact .inl hcatch
        rcases h' with hcatch | ⟨htheirs, hrest'⟩
        · obtain ⟨name, rfl⟩ := Segment.isCatchAll_cases hcatch
          cases Segment.isLiteral_or_isParam_of_subsumes hmine
        · exact .inr ⟨Segment.subsumes_trans hmine htheirs, ih hrest hrest'⟩

/-- A pattern that is found to subsume another has all its paths, if the text of that one holds no
line feed; without mixed segments one that has all its paths is found to subsume it. Each pattern
without mixed segments subsumes itself, and what it subsumes is subsumed by whatever subsumes it. -/
theorem subsumes_decides {t u : Text} (hp : parse t = .ok p) (hq : parse u = .ok q) :
    ('\n' ∉ u → p.subsumes q = true →
      ∀ path, q.regex.isMatch path = true → p.regex.isMatch path = true) ∧
    (p.isPlain = true → q.isPlain = true →
      (∀ path, q.regex.isMatch path = true → p.regex.isMatch path = true) →
        p.subsumes q = true) ∧
    (p.isPlain = true → p.subsumes p = true) ∧
    ∀ o : Pattern, o.subsumes p = true → p.subsumes q = true → o.subsumes q = true := by
  refine ⟨?_, ?_, subsumes_refl, fun o => segmentsSubsume_trans⟩
  · intro hline h path
    rw [← text_parse hq] at hline
    exact isMatch_of_subsumes (formed_parse hp) (formed_parse hq) h hline
  · exact subsumes_of_isMatch (formed_parse hp) (formed_parse hq)

/-- `/{a}/*rest` has every path of `/{id:int}/x`. -/
theorem subsumes_decides_rest : ∃ p q : Pattern,
    parse ['/', '{', 'a', '}', '/', '*', 'r', 'e', 's', 't'] = .ok p ∧
    parse ['/', '{', 'i', 'd', ':', 'i', 'n', 't', '}', '/', 'x'] = .ok q ∧
    p.isPlain = true ∧ q.isPlain = true ∧ p.subsumes q = true ∧ p.subsumes p = true ∧
    (∀ path, q.regex.isMatch path = true → p.regex.isMatch path = true) ∧
    ¬ ∀ path, p.regex.isMatch path = true → q.regex.isMatch path = true := by
  have hp : parse ['/', '{', 'a', '}', '/', '*', 'r', 'e', 's', 't'] =
      .ok ⟨[[.param ['a'] .word], [.catchAll ['r', 'e', 's', 't']]]⟩ := rfl
  have hq : parse ['/', '{', 'i', 'd', ':', 'i', 'n', 't', '}', '/', 'x'] =
      .ok ⟨[[.param ['i', 'd'] .int], [.literal ['x']]]⟩ := rfl
  refine ⟨_, _, hp, hq, rfl, rfl, rfl, (subsumes_decides hp hq).2.2.1 rfl,
    (subsumes_decides hp hq).1 (by decide) rfl, ?_⟩
  intro h
  cases (subsumes_decides hq hp).2.1 rfl rfl h

end Pattern

end HttpRouting
