import HttpRouting.Proofs.Pattern.Language
import HttpRouting.Proofs.Pattern.Parsing

/-!
# Segments of patterns that were read

What reading makes sure of (`Pattern.Formed`): a catch-all is the whole of the last segment, only
the last segment is empty, and no text holds a slash. A piece of text that a segment spells is then
like the segment as it is written: both are empty or neither is, and both hold a given sign or
neither does, where no name and no brace could hold it (`Segment.mem_iff_of_spells`).
-/

namespace HttpRouting

/-- What a segment is made of, unless it is a catch-all. -/
inductive Token.Inner : Token → Prop
  | literal (t : Text) : Inner (.literal t)
  | param {name : Text} (hname : Text.isName name = true) (type : ParamType) :
    Inner (.param name type)

/-- What reading makes sure of the segments of a pattern. -/
structure Pattern.Formed (p : Pattern) : Prop where
  nonempty : p.segments ≠ []
  cases : ∀ s ∈ p.segments, (∃ name, Text.isName name = true ∧ s = [.catchAll name]) ∨
    ∀ token ∈ s, Token.Inner token
  noSlash : ∀ s ∈ p.segments, '/' ∉ Segment.text s
  /-- Only the last segment may be a catch-all, and only the last may be empty. -/
  front : ∀ s ∈ p.segments.dropLast, Segment.isCatchAll s = false ∧ Segment.text s ≠ []

theorem Text.not_mem_of_mem_splitOn {sep : Char} {t part : Text} (h : part ∈ t.splitOn sep) :
    sep ∉ part := by
  induction t generalizing part with
  | nil =>
    rw [List.mem_singleton.1 h]
    exact List.not_mem_nil
  | cons c t ih =>
    rw [List.splitOn_cons_eq_if_modifyHead] at h
    split at h
    · rcases List.mem_cons.1 h with rfl | h
      · exact List.not_mem_nil
      · exact ih h
    · next hc =>
      obtain ⟨first, more, hsplit⟩ := List.exists_cons_of_ne_nil (List.splitOn_ne_nil sep t)
      rw [hsplit] at h ih
      rcases List.mem_cons.1 h with rfl | h
      · rw [List.mem_cons, not_or]
        exact ⟨fun heq => hc (beq_iff_eq.2 heq.symm), ih List.mem_cons_self⟩
      · exact ih (List.mem_cons_of_mem _ h)

/-! ## Reading -/

namespace Segment

theorem inner_pending {literal : Text} : ∀ token ∈ pending literal, Token.Inner token := by
  unfold pending
  split
  · exact nofun
  · intro token h
    rw [List.mem_singleton.1 h]
    exact .literal literal

theorem inner_scan {literal : Text} {inner? : Option Text} {t : Text} {s : Segment}
    (h : scan literal inner? t = .ok s) : ∀ token ∈ s, Token.Inner token := by
  replace h := scanned h
  induction h with
  | done literal => exact inner_pending
  | opened _ ih | inside _ _ ih | char _ _ _ ih => exact ih
  | closed htoken _ ih =>
    obtain ⟨-, name, type, rfl, hname, -⟩ := Token.ofBraced_cases htoken
    exact List.forall_mem_append.2 ⟨inner_pending, List.forall_mem_cons.2 ⟨.param hname type, ih⟩⟩

theorem parse_cases {t : Text} {s : Segment} (h : parse t = .ok s) :
    (∃ name, Text.isName name = true ∧ s = [.catchAll name]) ∨ ∀ token ∈ s, Token.Inner token := by
  unfold parse at h
  split at h
  · next name =>
    split at h
    · next hname =>
      cases h
      exact .inl ⟨name, hname, rfl⟩
    · cases h
  · cases h
    exact .inr fun token htoken => by
      rw [List.mem_singleton.1 htoken]
      exact .literal []
  · exact .inr (inner_scan h)

end Segment

namespace Pattern

theorem front_parseSegments {parts : List Text} {segments : List Segment}
    (h : parseSegments parts = .ok segments) :
    ∀ s ∈ segments.dropLast, Segment.isCatchAll s = false ∧ Segment.text s ≠ [] := by
  induction parts generalizing segments with
  | nil =>
    cases h
    exact List.forall_mem_nil _
  | cons part more ih =>
    obtain ⟨s, hpart, hmore⟩ := parseSegments_cons h
    rcases hmore with ⟨rfl, rfl⟩ | ⟨hmore, hne, hcatch, rest, hsegments, rfl⟩
    · exact List.forall_mem_nil _
    · have hrest : rest ≠ [] := by
        rintro rfl
        exact hmore (texts_parseSegments hsegments).1.symm
      rw [List.dropLast_cons_of_ne_nil hrest, List.forall_mem_cons, Segment.text_parse hpart]
      exact ⟨⟨hcatch, hne⟩, ih hsegments⟩

theorem formed_parse {t : Text} {p : Pattern} (h : parse t = .ok p) : p.Formed := by
  obtain ⟨rest, rfl, hsegments⟩ := parse_cases h
  have htexts := (texts_parseSegments hsegments).1
  refine ⟨?_, fun s hs => Segment.parse_cases (parse_segment h hs), fun s hs => ?_,
    front_parseSegments hsegments⟩
  · intro hnil
    rw [hnil] at htexts
    exact List.splitOn_ne_nil '/' rest htexts.symm
  · have hpart : Segment.text s ∈ Text.split '/' rest := htexts ▸ List.mem_map_of_mem hs
    exact Text.not_mem_of_mem_splitOn hpart

end Pattern

/-! ## What a segment spells -/

/-- A sign that neither a name nor what encloses a parameter can hold. -/
def Text.IsSign (c : Char) : Prop := isWordChar c = false ∧ c ≠ '{' ∧ c ≠ '}' ∧ c ≠ ':'

instance (c : Char) : Decidable (Text.IsSign c) := inferInstanceAs (Decidable (_ ∧ _))

theorem Text.not_mem_of_isName {c : Char} (hc : isWordChar c = false) {name : Text}
    (hname : isName name = true) : c ∉ name := by
  intro hm
  have hall := (Bool.and_eq_true_iff.1 hname).2
  rw [List.all_eq_true.1 hall c hm] at hc
  cases hc

theorem ParamType.isWordChar_of_admits {type : ParamType} {c : Char} (h : type.admits c = true) :
    Text.isWordChar c = true := by
  cases type with
  | word => exact h
  | int => exact Text.isWordChar_of_isDigit h

theorem Text.mem_congr_of_lower {c : Char} (hc : isWordChar c = false) {s t : Text}
    (h : lower t = lower s) : c ∈ t ↔ c ∈ s := by
  have halpha : c.isAlpha = false := by
    rw [Bool.eq_false_iff]
    intro h
    rw [isWordChar_iff.2 (.inl h)] at hc
    cases hc
  have hlower : ∀ t : Text, c ∈ lower t ↔ c ∈ t := fun t => by
    simp only [lower, List.mem_map, toLower_eq_iff halpha, exists_eq_right]
  rw [← hlower t, h, hlower]

namespace Token.Inner

variable {token : Token} {u : Text} {c : Char}

theorem mem_iff_of_spells (h : token.Inner) (hc : Text.IsSign c) (hu : token.Spells u) :
    c ∈ u ↔ c ∈ token.text := by
  cases h with
  | literal t => exact Text.mem_congr_of_lower hc.1 hu
  | @param name hname type =>
    have hname := Text.not_mem_of_isName hc.1 hname
    have hvalue : c ∉ u := by
      intro hm
      have hall := (Bool.and_eq_true_iff.1 hu).2
      have hword := ParamType.isWordChar_of_admits (List.all_eq_true.1 hall c hm)
      rw [hc.1] at hword
      cases hword
    refine iff_of_false hvalue ?_
    obtain ⟨hword, hopen, hclose, hcolon⟩ := hc
    cases type with
    | word => simp [text, hopen, hclose, hname]
    | int =>
      have hletter : ∀ d, Text.isWordChar d = true → c ≠ d := by
        rintro d hd rfl
        rw [hword] at hd
        cases hd
      simp [text, hopen, hclose, hcolon, hname, hletter 'i' (by decide), hletter 'n' (by decide),
        hletter 't' (by decide)]

theorem eq_nil_iff_of_spells (h : token.Inner) (hu : token.Spells u) :
    u = [] ↔ token.text = [] := by
  cases h with
  | literal t =>
    have hlength := congrArg List.length (show Text.lower u = Text.lower t from hu)
    rw [Text.length_lower, Text.length_lower] at hlength
    rw [← List.length_eq_zero_iff, hlength, List.length_eq_zero_iff]
    rfl
  | param hname type =>
    refine iff_of_false ?_ (by cases type <;> exact List.cons_ne_nil _ _)
    rintro rfl
    cases hu

end Token.Inner

namespace Segment

variable {s : Segment} {u : Text}

theorem mem_iff_of_spells (hs : ∀ token ∈ s, Token.Inner token) {c : Char} (hc : Text.IsSign c)
    (hu : s.Spells u) : c ∈ u ↔ c ∈ text s := by
  induction s generalizing u with
  | nil =>
    rw [show u = [] from hu]
    exact .rfl
  | cons token s ih =>
    obtain ⟨hs, hrest⟩ := List.forall_mem_cons.1 hs
    obtain ⟨u, v, rfl, hu, hv⟩ := hu
    rw [text_cons, List.mem_append, List.mem_append, hs.mem_iff_of_spells hc hu, ih hrest hv]

theorem eq_nil_iff_of_spells (hs : ∀ token ∈ s, Token.Inner token) (hu : s.Spells u) :
    u = [] ↔ text s = [] := by
  induction s generalizing u with
  | nil => exact iff_of_true hu rfl
  | cons token s ih =>
    obtain ⟨hs, hrest⟩ := List.forall_mem_cons.1 hs
    obtain ⟨u, v, rfl, hu, hv⟩ := hu
    rw [text_cons, List.append_eq_nil_iff, List.append_eq_nil_iff, hs.eq_nil_iff_of_spells hu,
      ih hrest hv]

theorem spells_catchAll {name : Text} : Spells [.catchAll name] u ↔ '\n' ∉ u := by
  constructor
  · rintro ⟨u, v, rfl, hu, rfl⟩
    rw [List.append_nil]
    exact hu
  · exact fun hu => ⟨u, [], (List.append_nil u).symm, hu, rfl⟩

theorem spells_param {name : Text} {type : ParamType} :
    Spells [.param name type] u ↔ type.accepts u = true := by
  constructor
  · rintro ⟨u, v, rfl, hu, rfl⟩
    rw [List.append_nil]
    exact hu
  · exact fun hu => ⟨u, [], (List.append_nil u).symm, hu, rfl⟩

theorem isCatchAll_cases (h : isCatchAll s = true) : ∃ name, s = [.catchAll name] := by
  match s, h with
  | [.catchAll name], _ => exact ⟨name, rfl⟩

end Segment

/-- A segment without line feed spells none. -/
theorem Pattern.Formed.lineFeed_notMem {p : Pattern} (hp : p.Formed) {s : Segment}
    (hs : s ∈ p.segments) (htext : '\n' ∉ Segment.text s) {u : Text} (hu : s.Spells u) :
    '\n' ∉ u := by
  rcases hp.cases s hs with ⟨name, -, rfl⟩ | hinner
  · exact Segment.spells_catchAll.1 hu
  · have hsign : Text.IsSign '\n' := by decide
    rwa [Segment.mem_iff_of_spells hinner hsign hu]

end HttpRouting
