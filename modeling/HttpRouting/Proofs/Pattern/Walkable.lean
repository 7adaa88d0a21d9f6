import HttpRouting.Proofs.Pattern.Regex
import HttpRouting.Proofs.Text.Folding
import HttpRouting.Router.Tree

/-!
# Expressions of walkable patterns

What the expression of a literal and of a parameter takes from a path. A literal is compared letter
case aside, however its characters are grouped (`capture?_literal`). A parameter that a slash or the
end follows takes the whole segment, since no slash is admitted: nothing is left to choose
(`capture?_run`).
-/

namespace HttpRouting

/-! ## Segments of a path -/

namespace Path

theorem cutSegment_slash (t : Text) : cutSegment ('/' :: t) = ([], '/' :: t) := by
  simp [cutSegment]

theorem cutSegment_cons {c : Char} (hc : c ≠ '/') (t : Text) :
    cutSegment (c :: t) = (c :: (cutSegment t).1, (cutSegment t).2) := by
  simp [cutSegment, hc]

end Path

theorem ParamType.accepts_cons (type : ParamType) (c : Char) (t : Text) :
    type.accepts (c :: t) = (type.admits c && t.all type.admits) := by
  simp [accepts]

namespace Regex

/-! ## Literals -/

/-- Letter case makes no difference outside ASCII. -/
theorem dropStart?_singleton {c : Char} (hc : isAscii c = false) (t : Text) :
    Text.dropStart? (· == ·) [c] t = Text.dropStart? Text.sameFolded [c] t := by
  have hc : 128 ≤ c.toNat := by
    simpa [isAscii, UInt32.lt_iff_toNat_lt] using hc
  cases t with
  | nil => rfl
  | cons d t => simp [Text.dropStart?, Text.sameFolded, Text.toLower_eq_toLower_iff hc]

theorem dropStart?_cons (same : Char → Char → Bool) (c : Char) (s t : Text) :
    Text.dropStart? same (c :: s) t =
      (Text.dropStart? same [c] t).bind (Text.dropStart? same s) :=
  Text.dropStart?_append same [c] s t

/-- A literal character in front is compared by itself, whatever run it joins. -/
theorem capture?_consChar (c : Char) (l r : Regex) (t : Text) :
    capture? (consChar c l ++ r) t =
      (Text.dropStart? Text.sameFolded [c] t).bind (capture? (l ++ r)) := by
  unfold consChar
  split
  · next s l =>
    by_cases hc : isAscii c
    · rw [if_pos hc, List.cons_append, capture?, dropStart?_cons, Option.bind_assoc]
      rfl
    · rw [if_neg hc, List.cons_append, capture?, dropStart?_singleton (by simpa using hc)]
  · next s l =>
    by_cases hc : isAscii c
    · rw [if_pos hc, List.cons_append, capture?]
    · rw [if_neg hc, List.cons_append, capture?, dropStart?_cons,
        dropStart?_singleton (by simpa using hc), Option.bind_assoc]
      rfl
  · by_cases hc : isAscii c
    · rw [if_pos hc, List.cons_append, capture?]
    · rw [if_neg hc, List.cons_append, capture?, dropStart?_singleton (by simpa using hc)]

theorem capture?_literal (s : Text) (r : Regex) (t : Text) :
    capture? (s.foldr consChar [] ++ r) t =
      (Text.dropStart? Text.sameFolded s t).bind (capture? r) := by
  induction s generalizing t with
  | nil => rfl
  | cons c s ih =>
    rw [List.foldr_cons, capture?_consChar, dropStart?_cons _ c s, Option.bind_assoc]
    exact congrArg _ (funext ih)

theorem capture?_isLiteral {s : Segment} (hs : Segment.isLiteral s = true) (r : Regex) (t : Text) :
    capture? (s.flatMap ofToken ++ r) t =
      (Text.dropStart? Text.sameFolded (Segment.text s) t).bind (capture? r) := by
  induction s generalizing t with
  | nil => rfl
  | cons token s ih =>
    have hs : token.isLiteral = true ∧ Segment.isLiteral s = true := by
      simpa [Segment.isLiteral] using hs
    cases token with
    | literal u =>
      rw [List.flatMap_cons, List.append_assoc, ofToken, capture?_literal]
      show _ = (Text.dropStart? Text.sameFolded (u ++ Segment.text s) t).bind (capture? r)
      rw [Text.dropStart?_append, Option.bind_assoc]
      exact congrArg _ (funext (ih hs.2))
    | param name type => cases hs.1
    | catchAll name => cases hs.1

/-! ## Parameters -/

/-- The expression matches nothing that starts with a character other than a slash. -/
def Stops (r : Regex) : Prop := ∀ c t, c ≠ '/' → capture? r (c :: t) = none

theorem stops_nil : Stops [] := fun c t _ => by rw [capture?_nil, if_neg (by simp)]

theorem stops_slash (r : Regex) : Stops (.slash :: r) := fun c t hc => by
  simp [capture?, Text.dropStart?, Ne.symm hc]

/-- No slash is admitted, as a class of word characters tells. -/
theorem ne_slash_of_admits {type : ParamType} {c : Char} (h : type.admits c = true) : c ≠ '/' := by
  rintro rfl
  cases type with
  | word => exact absurd h (by decide)
  | int => exact absurd h (by decide)

theorem value?_of_stops {r : Regex} (hr : Stops r) (type : ParamType) (t : Text) :
    value? type.admits r t =
      (capture? r (t.dropWhile type.admits)).map
        fun values => (t.takeWhile type.admits, values) := by
  induction t with
  | nil => rw [value?_nil]; rfl
  | cons c t ih =>
    rw [value?_cons]
    by_cases hc : type.admits c = true
    · rw [if_pos hc, ih, hr c t (ne_slash_of_admits hc), List.takeWhile_cons_of_pos hc,
        List.dropWhile_cons_of_pos hc, Option.map_none, Option.or_none, Option.map_map]
      rfl
    · rw [if_neg hc, List.takeWhile_cons_of_neg hc, List.dropWhile_cons_of_neg hc, Option.none_or]

/-- If a segment is admitted as a whole, the longest admitted start of the text is that segment. -/
theorem span_of_all {type : ParamType} {t : Text}
    (h : (Path.cutSegment t).1.all type.admits = true) :
    t.takeWhile type.admits = (Path.cutSegment t).1 ∧
      t.dropWhile type.admits = (Path.cutSegment t).2 := by
  induction t with
  | nil => exact ⟨rfl, rfl⟩
  | cons c t ih =>
    by_cases hslash : c = '/'
    · have hc : ¬ type.admits c = true := fun hc => ne_slash_of_admits hc hslash
      rw [hslash, Path.cutSegment_slash, ← hslash]
      exact ⟨List.takeWhile_cons_of_neg hc, List.dropWhile_cons_of_neg hc⟩
    · rw [Path.cutSegment_cons hslash] at h ⊢
      obtain ⟨hc, h⟩ := Bool.and_eq_true_iff.1 (List.all_cons.symm.trans h)
      obtain ⟨htake, hdrop⟩ := ih h
      rw [List.takeWhile_cons_of_pos hc, List.dropWhile_cons_of_pos hc, htake, hdrop]
      exact ⟨rfl, rfl⟩

/-- Otherwise the admitted start ends inside the segment. -/
theorem dropWhile_of_not_all {type : ParamType} {t : Text}
    (h : ¬ (Path.cutSegment t).1.all type.admits = true) :
    ∃ c u, t.dropWhile type.admits = c :: u ∧ c ≠ '/' := by
  induction t with
  | nil => exact absurd rfl h
  | cons c t ih =>
    by_cases hslash : c = '/'
    · rw [hslash, Path.cutSegment_slash] at h
      exact absurd rfl h
    · rw [Path.cutSegment_cons hslash] at h
      by_cases hc : type.admits c = true
      · rw [List.dropWhile_cons_of_pos hc]
        exact ih (by simpa [hc] using h)
      · exact ⟨c, t, List.dropWhile_cons_of_neg hc, hslash⟩

/-- A parameter before a slash or the end takes the whole segment, if it accepts it. -/
theorem capture?_run {r : Regex} (hr : Stops r) (type : ParamType) (t : Text) :
    capture? (.run type :: r) t =
      if type.accepts (Path.cutSegment t).1 then
        (capture? r (Path.cutSegment t).2).map ((Path.cutSegment t).1 :: ·)
      else none := by
  cases t with
  | nil =>
    rw [capture?_run_nil]
    rfl
  | cons c t =>
    rw [capture?_run_cons, value?_of_stops hr, Option.map_map]
    by_cases hslash : c = '/'
    · have hc : ¬ type.admits c = true := fun hc => ne_slash_of_admits hc hslash
      rw [if_neg hc, hslash, Path.cutSegment_slash]
      rfl
    · rw [Path.cutSegment_cons hslash, ParamType.accepts_cons]
      by_cases hc : type.admits c = true
      · rw [if_pos hc, hc, Bool.true_and]
        by_cases hall : (Path.cutSegment t).1.all type.admits = true
        · obtain ⟨htake, hdrop⟩ := span_of_all hall
          rw [if_pos hall, htake, hdrop]
          rfl
        · obtain ⟨d, u, hdrop, hd⟩ := dropWhile_of_not_all hall
          rw [if_neg hall, hdrop, hr d u hd]
          rfl
      · rw [if_neg hc, if_neg (by simp [hc])]

end Regex

end HttpRouting
