import HttpRouting.Pattern.Parser
import HttpRouting.Proofs.Text.Folding

/-!
# Reading patterns back, and reading them in lower case

A pattern that was read is written as it was given (`Pattern.text_parse`), and so is each of its
segments. Reading commutes with case folding (`Segment.parse_lower`): the lower-case form of a
segment reads as the same tokens with their texts in lower case. Facts about the tokens of a segment
are proved along the steps of its reading (`Segment.Scanned`).
-/

namespace HttpRouting

/-- The token with its text in lower case. -/
def Token.lower : Token → Token
  | .literal t => .literal (Text.lower t)
  | .param name type => .param (Text.lower name) type
  | .catchAll name => .catchAll (Text.lower name)

/-- The segment with its texts in lower case. -/
def Segment.lower (s : Segment) : Segment := s.map Token.lower

/-! ## Single parameters -/

namespace Token

/-- What stands between the braces: a name, then nothing or a colon and the type. -/
theorem ofBraced_cases {inner : Text} {token : Token} (h : ofBraced inner = .ok token) :
    '{' ∉ inner ∧ ∃ name type, token = .param name type ∧ Text.isName name = true ∧
      name = inner.takeWhile (· ≠ ':') ∧
      inner.dropWhile (· ≠ ':') = match type with
        | .word => []
        | .int => [':', 'i', 'n', 't'] := by
  unfold ofBraced at h
  split at h
  · cases h
  next hbrace =>
  refine ⟨by simpa using hbrace, ?_⟩
  simp only at h
  split at h
  · next hrest =>
    split at h
    · next hname => cases h; exact ⟨_, .word, rfl, hname, rfl, hrest⟩
    · cases h
  · next colon type hrest =>
    have hcolon : colon = ':' := by
      have := List.head?_dropWhile_not (· ≠ ':') inner
      rw [hrest] at this
      simpa using this
    split at h
    · next htype =>
      split at h
      · next hname =>
        cases h
        exact ⟨_, .int, rfl, hname, rfl, by rw [hrest, hcolon, htype]⟩
      · cases h
    · cases h

theorem text_ofBraced {inner : Text} {token : Token} (h : ofBraced inner = .ok token) :
    token.text = '{' :: inner ++ ['}'] := by
  obtain ⟨_, name, type, rfl, _, hname, hrest⟩ := ofBraced_cases h
  have hinner : inner = name ++ inner.dropWhile (· ≠ ':') := by
    rw [hname, List.takeWhile_append_dropWhile]
  cases type with
  | word => rw [hinner, hrest]; simp [text]
  | int => rw [hinner, hrest]; simp [text]

private theorem ne_colon_toLower (c : Char) :
    decide (c.toLower ≠ ':') = decide (c ≠ ':') := by
  simp [Text.toLower_eq_iff (by decide : Char.isAlpha ':' = false)]

theorem ofBraced_lower {inner : Text} {token : Token} (h : ofBraced inner = .ok token) :
    ofBraced (Text.lower inner) = .ok token.lower := by
  obtain ⟨hbrace, name, type, rfl, hword, hname, hrest⟩ := ofBraced_cases h
  have hbrace' : (Text.lower inner).contains '{' = false := by
    simp only [List.contains_eq_mem, decide_eq_false_iff_not]
    intro hm
    obtain ⟨c, hc, he⟩ := List.mem_map.1 hm
    rw [Text.toLower_eq_iff (by decide)] at he
    exact hbrace (he ▸ hc)
  have hname' : (Text.lower inner).takeWhile (· ≠ ':') = Text.lower name := by
    rw [Text.takeWhile_lower ne_colon_toLower, ← hname]
  have hrest' := Text.dropWhile_lower (p := (· ≠ ':')) ne_colon_toLower inner
  rw [hrest] at hrest'
  have hword' : Text.isName (Text.lower name) = true := by rw [Text.isName_lower, hword]
  unfold ofBraced
  simp only [hbrace', hname', hrest']
  cases type with
  | word => simp [hword', lower]
  | int =>
    have : Text.lower ['i', 'n', 't'] = ['i', 'n', 't'] := by decide
    simp [hword', lower, this]

end Token

/-! ## Segments -/

namespace Segment

@[simp] theorem text_nil : text [] = [] := rfl

@[simp] theorem text_cons (token : Token) (s : Segment) :
    text (token :: s) = token.text ++ text s :=
  List.flatMap_cons

@[simp] theorem text_append (s s' : Segment) : text (s ++ s') = text s ++ text s' :=
  List.flatMap_append

theorem text_pending (literal : Text) : text (pending literal) = literal := by
  unfold pending
  split
  · next h => exact h.symm
  · simp [Token.text]

theorem lower_pending (literal : Text) :
    lower (pending literal) = pending (Text.lower literal) := by
  unfold pending
  simp only [Text.lower_eq_nil]
  split <;> rfl

/-- The steps of a reading that succeeds, from the literal since the last token and the text since
an open brace. -/
inductive Scanned : Text → Option Text → Text → Segment → Prop
  | done (literal : Text) : Scanned literal none [] (pending literal)
  | opened {literal t : Text} {s : Segment} (h : Scanned literal (some []) t s) :
    Scanned literal none ('{' :: t) s
  | inside {literal inner t : Text} {c : Char} {s : Segment} (hc : c ≠ '}')
    (h : Scanned literal (some (inner ++ [c])) t s) : Scanned literal (some inner) (c :: t) s
  | closed {literal inner t : Text} {token : Token} {more : Segment}
    (htoken : Token.ofBraced inner = .ok token) (h : Scanned [] none t more) :
    Scanned literal (some inner) ('}' :: t) (pending literal ++ token :: more)
  | char {literal t : Text} {c : Char} {s : Segment} (hopen : c ≠ '{') (hclose : c ≠ '}')
    (h : Scanned (literal ++ [c]) none t s) : Scanned literal none (c :: t) s

theorem scanned {literal : Text} {inner? : Option Text} {t : Text} {s : Segment}
    (h : scan literal inner? t = .ok s) : Scanned literal inner? t s := by
  induction t generalizing literal inner? s with
  | nil =>
    cases inner? with
    | some inner => cases h
    | none =>
      cases h
      exact .done literal
  | cons c t ih =>
    cases inner? with
    | some inner =>
      simp only [scan] at h
      split at h
      · next hc =>
        subst hc
        split at h
        · cases h
        · next token htoken =>
          cases hmore : scan [] none t with
          | error fault => rw [hmore] at h; cases h
          | ok more =>
            rw [hmore] at h
            cases h
            exact .closed htoken (ih hmore)
      · next hc => exact .inside hc (ih h)
    | none =>
      simp only [scan] at h
      split at h
      · next hopen =>
        subst hopen
        exact .opened (ih h)
      · next hopen =>
        split at h
        · cases h
        · next hclose => exact .char hopen hclose (ih h)

/-- What was read before the rest of a segment: the literal, and the text since an open brace. -/
def soFar (literal : Text) (inner? : Option Text) : Text :=
  literal ++ inner?.elim [] ('{' :: ·)

theorem text_scan {literal : Text} {inner? : Option Text} {t : Text} {s : Segment}
    (h : scan literal inner? t = .ok s) : text s = soFar literal inner? ++ t := by
  replace h := scanned h
  induction h with
  | done literal => simp [soFar, text_pending]
  | opened _ ih => simpa [soFar] using ih
  | inside _ _ ih => simpa [soFar] using ih
  | closed htoken _ ih => simp [soFar, text_pending, Token.text_ofBraced htoken, ih]
  | char _ _ _ ih => simpa [soFar] using ih

/-- Reading in lower case takes the same branches, as no brace is a letter. -/
theorem scan_lower {literal : Text} {inner? : Option Text} {t : Text} {s : Segment}
    (h : scan literal inner? t = .ok s) :
    scan (Text.lower literal) (inner?.map Text.lower) (Text.lower t) = .ok (lower s) := by
  have hopen := fun c => Text.toLower_eq_iff (d := '{') (by decide) c
  have hclose := fun c => Text.toLower_eq_iff (d := '}') (by decide) c
  replace h := scanned h
  induction h with
  | done literal => simp [scan, lower_pending]
  | opened _ ih =>
    rw [Text.lower_cons, Option.map_none, scan, if_pos ((hopen _).2 rfl)]
    simpa using ih
  | inside hc _ ih =>
    rw [Text.lower_cons, Option.map_some, scan, if_neg (mt (hclose _).1 hc)]
    simpa using ih
  | closed htoken _ ih =>
    rw [Text.lower_nil, Option.map_none] at ih
    rw [Text.lower_cons, Option.map_some, scan, if_pos ((hclose _).2 rfl),
      Token.ofBraced_lower htoken, ih]
    simp [Except.map, lower, ← lower_pending]
  | char hbrace hbrace' _ ih =>
    rw [Text.lower_cons, Option.map_none, scan, if_neg (mt (hopen _).1 hbrace),
      if_neg (mt (hclose _).1 hbrace')]
    simpa using ih

theorem text_parse {t : Text} {s : Segment} (h : parse t = .ok s) : text s = t := by
  unfold parse at h
  split at h
  · split at h
    · cases h; simp [Token.text]
    · cases h
  · cases h; rfl
  · exact text_scan h

/-- The lower-case form of a segment reads as the same tokens in lower case. -/
theorem parse_lower {t : Text} {s : Segment} (h : parse t = .ok s) :
    parse (Text.lower t) = .ok (lower s) := by
  unfold parse at h
  split at h
  · next name =>
    split at h
    · next hname =>
      cases h
      have hstar : Char.toLower '*' = '*' := by decide
      simp [parse, hstar, Text.isName_lower, hname, lower, Token.lower]
    · cases h
  · cases h; rfl
  · next hstar hnil =>
    cases t with
    | nil => exact absurd rfl hnil
    | cons c t =>
      have hc : c.toLower ≠ '*' := by
        rw [Ne, Text.toLower_eq_iff (by decide)]
        rintro rfl
        exact hstar t rfl
      have := scan_lower h
      simp only [Text.lower_nil, Option.map_none, Text.lower_cons] at this
      rw [← this, Text.lower_cons, parse]
      · rintro name he
        exact hc (List.cons.inj he).1
      · simp

end Segment

/-! ## Patterns -/

namespace Pattern

/-- What reading the parts behind the first requires of the first. -/
theorem parseSegments_cons {part : Text} {more : List Text} {segments : List Segment}
    (h : parseSegments (part :: more) = .ok segments) : ∃ s, Segment.parse part = .ok s ∧
      (more = [] ∧ segments = [s] ∨
        more ≠ [] ∧ part ≠ [] ∧ Segment.isCatchAll s = false ∧
          ∃ rest, parseSegments more = .ok rest ∧ segments = s :: rest) := by
  simp only [parseSegments] at h
  split at h
  · next hmore =>
    cases hpart : Segment.parse part with
    | error fault => rw [hpart] at h; cases h
    | ok s =>
      rw [hpart] at h
      cases h
      exact ⟨s, rfl, .inl ⟨hmore, rfl⟩⟩
  · next hmore =>
    split at h
    · cases h
    · next hne =>
      split at h
      · cases h
      · next s hpart =>
        split at h
        · cases h
        · next hcatch =>
          cases hsegments : parseSegments more with
          | error fault => rw [hsegments] at h; cases h
          | ok rest =>
            rw [hsegments] at h
            cases h
            exact ⟨s, hpart, .inr ⟨hmore, hne, Bool.eq_false_iff.2 hcatch, rest, rfl, rfl⟩⟩

theorem texts_parseSegments {parts : List Text} {segments : List Segment}
    (h : parseSegments parts = .ok segments) :
    segments.map Segment.text = parts ∧ ∀ s ∈ segments, Segment.parse (Segment.text s) = .ok s := by
  induction parts generalizing segments with
  | nil => cases h; exact ⟨rfl, nofun⟩
  | cons part more ih =>
    obtain ⟨s, hpart, hmore⟩ := parseSegments_cons h
    have htext := Segment.text_parse hpart
    rcases hmore with ⟨rfl, rfl⟩ | ⟨-, -, -, rest, hsegments, rfl⟩
    · exact ⟨by simp [htext], by simp [htext, hpart]⟩
    · obtain ⟨hrest, hread⟩ := ih hsegments
      refine ⟨by simp [htext, hrest], ?_⟩
      rw [List.forall_mem_cons, htext]
      exact ⟨hpart, hread⟩

theorem flatMap_slash (parts : List Text) (h : parts ≠ []) :
    parts.flatMap ('/' :: ·) = '/' :: ['/'].intercalate parts := by
  induction parts with
  | nil => exact absurd rfl h
  | cons part more ih =>
    cases more with
    | nil => simp
    | cons next more => rw [List.flatMap_cons, ih (by simp), List.intercalate_cons_cons]; simp

theorem parse_cases {t : Text} {p : Pattern} (h : parse t = .ok p) :
    ∃ rest, t = '/' :: rest ∧ parseSegments (Text.split '/' rest) = .ok p.segments := by
  unfold parse at h
  split at h
  · next rest =>
    cases hsegments : parseSegments (Text.split '/' rest) with
    | error fault => rw [hsegments] at h; cases h
    | ok segments => rw [hsegments] at h; cases h; exact ⟨rest, rfl, hsegments⟩
  · cases h

/-- A pattern is written as it was given. -/
theorem text_parse {t : Text} {p : Pattern} (h : parse t = .ok p) : p.text = t := by
  obtain ⟨rest, rfl, hsegments⟩ := parse_cases h
  obtain ⟨htexts, _⟩ := texts_parseSegments hsegments
  calc p.text = (p.segments.map Segment.text).flatMap ('/' :: ·) := by
        rw [List.flatMap_map]; rfl
    _ = '/' :: ['/'].intercalate (Text.split '/' rest) := by
        rw [htexts, flatMap_slash _ (List.splitOn_ne_nil '/' rest)]
    _ = '/' :: rest := by rw [List.intercalate_splitOn]

/-- Each segment of a pattern reads as itself. -/
theorem parse_segment {t : Text} {p : Pattern} (h : parse t = .ok p) {s : Segment}
    (hs : s ∈ p.segments) : Segment.parse (Segment.text s) = .ok s := by
  obtain ⟨rest, rfl, hsegments⟩ := parse_cases h
  exact (texts_parseSegments hsegments).2 s hs

end Pattern

end HttpRouting
