import HttpRouting.Proofs.Pattern.Expression
import HttpRouting.Proofs.Pattern.Language
import HttpRouting.Proofs.Router.Keys
import HttpRouting.Proofs.Text.Utf8

/-!
# What a match captures

A pattern can often take a path apart in several ways: `{a}_{b}` cuts `x_y_z` at either underscore.
A `Decomposition` relates a text to the values of each way, and a match captures the greediest: in
any other way the value is shorter at the first place where the lengths differ.
-/

namespace HttpRouting

/-! ## Taking texts apart -/

/-- The ways to take a text apart, each given by the values that it captures. -/
abbrev Decomposition := Text → List Text → Prop

namespace Decomposition

/-- The empty text, without values. -/
def empty : Decomposition := fun t values => t = [] ∧ values = []

def slash : Decomposition := fun t values => t = ['/'] ∧ values = []

/-- The start of the text is taken apart in one way, and the rest in another. -/
def append (A B : Decomposition) : Decomposition := fun t values =>
  ∃ u v first rest, t = u ++ v ∧ A u first ∧ B v rest ∧ values = first ++ rest

theorem empty_append (A : Decomposition) : append empty A = A := by
  funext t values
  apply propext
  constructor
  · rintro ⟨_, _, _, _, rfl, ⟨rfl, rfl⟩, hA, rfl⟩
    exact hA
  · intro hA
    exact ⟨[], t, [], values, rfl, ⟨rfl, rfl⟩, hA, rfl⟩

theorem append_assoc (A B C : Decomposition) : append (append A B) C = append A (append B C) := by
  funext t values
  apply propext
  constructor
  · rintro ⟨_, w, _, last, rfl, ⟨u, v, first, rest, rfl, hA, hB, rfl⟩, hC, rfl⟩
    exact ⟨u, v ++ w, first, rest ++ last, List.append_assoc .., hA,
      ⟨v, w, rest, last, rfl, hB, hC, rfl⟩, List.append_assoc ..⟩
  · rintro ⟨u, _, first, _, rfl, hA, ⟨v, w, rest, last, rfl, hB, hC, rfl⟩, rfl⟩
    exact ⟨u ++ v, w, first ++ rest, last, (List.append_assoc ..).symm,
      ⟨u, v, first, rest, rfl, hA, hB, rfl⟩, hC, (List.append_assoc ..).symm⟩

end Decomposition

/-- The value that a token captures when it stands for a text. -/
def Token.captured : Token → Text → List Text
  | .literal _, _ => []
  | .param _ _, u => [u]
  | .catchAll _, u => [u]

def Token.decomposition (token : Token) : Decomposition := fun t values =>
  token.Spells t ∧ values = token.captured t

/-- Each token stands for a piece of the text. -/
def Segment.decomposition (s : Segment) : Decomposition :=
  s.foldr (fun token => .append token.decomposition) .empty

/-- Each segment is taken from behind a slash. -/
def Pattern.decomposition (p : Pattern) : Decomposition :=
  p.segments.foldr (fun s => .append (.append .slash s.decomposition)) .empty

/-- There is one value for each name. -/
theorem Segment.length_of_decomposition {s : Segment} {t : Text} {values : List Text}
    (h : s.decomposition t values) : values.length = (s.filterMap Token.name?).length := by
  induction s generalizing t values with
  | nil =>
    obtain ⟨-, rfl⟩ := h
    rfl
  | cons token s ih =>
    obtain ⟨u, v, _, rest, -, ⟨-, rfl⟩, hrest, rfl⟩ := h
    have hlength := ih hrest
    cases token with
    | literal text => exact hlength
    | param name type => exact congrArg (· + 1) hlength
    | catchAll name => exact congrArg (· + 1) hlength

theorem Pattern.length_of_decomposition {p : Pattern} {t : Text} {values : List Text}
    (h : p.decomposition t values) : values.length = p.names.length := by
  obtain ⟨segments⟩ := p
  induction segments generalizing t values with
  | nil =>
    obtain ⟨-, rfl⟩ := h
    rfl
  | cons s segments ih =>
    obtain ⟨_, _, _, rest, -, ⟨_, _, _, first, -, ⟨-, rfl⟩, hfirst, rfl⟩, hrest, rfl⟩ := h
    have hlength := ih hrest
    have hnames : names ⟨s :: segments⟩ = s.filterMap Token.name? ++ names ⟨segments⟩ := by
      simp only [names, List.flatten_cons, List.filterMap_append]
    rw [hnames, List.length_append, List.length_append, hlength, ← s.length_of_decomposition hfirst]

/-! ## The greediest values -/

/-- At the first place where the values differ in length, the first list has the shorter one. -/
inductive Shorter : List Text → List Text → Prop
  | head {u v : Text} {us vs : List Text} : u.length < v.length → Shorter (u :: us) (v :: vs)
  | tail {u v : Text} {us vs : List Text} :
      u.length = v.length → Shorter us vs → Shorter (u :: us) (v :: vs)

theorem Shorter.asymm {us vs : List Text} (h : Shorter us vs) : ¬ Shorter vs us := by
  induction h with
  | head hlt =>
    rintro (hgt | ⟨heq, -⟩) <;> omega
  | tail heq _ ih =>
    rintro (hgt | ⟨-, htail⟩)
    · omega
    · exact ih htail

/-- The values have the property, and any others that have it are shorter. -/
def Greediest (P : List Text → Prop) (values : List Text) : Prop :=
  P values ∧ ∀ others, P others → others ≠ values → Shorter others values

theorem Greediest.unique {P : List Text → Prop} {us vs : List Text} (hus : Greediest P us)
    (hvs : Greediest P vs) : us = vs := by
  apply Decidable.byContradiction
  intro hne
  exact (hvs.2 us hus.1 hne).asymm (hus.2 vs hvs.1 (Ne.symm hne))

/-- Nothing changes behind a piece that has one length only and captures nothing. -/
theorem Greediest.behind {A R : Decomposition} {u v : Text} {values : List Text}
    (h : Greediest (R v) values) (hu : A u [])
    (hlength : ∀ u' first, A u' first → u'.length = u.length ∧ first = []) :
    Greediest (A.append R (u ++ v)) values := by
  refine ⟨⟨u, v, [], values, rfl, hu, h.1, rfl⟩, ?_⟩
  intro others hothers hne
  obtain ⟨u', v', first, rest, hcut, hfirst, hrest, hsame⟩ := hothers
  obtain ⟨heq, rfl⟩ := hlength u' first hfirst
  obtain ⟨rfl, rfl⟩ := List.append_inj hcut heq.symm
  rw [List.nil_append] at hsame
  rw [hsame] at hne ⊢
  exact h.2 rest hrest hne

namespace Regex

variable {r : Regex} {R : Decomposition} {t : Text}

/-- The expression matches every text that can be taken apart, and captures the greediest values. -/
structure Finds (r : Regex) (R : Decomposition) : Prop where
  isMatch {t : Text} {values : List Text} : R t values → r.isMatch t = true
  greediest {t : Text} {values : List Text} : r.capture? t = some values → Greediest (R t) values

/-- No longer value has a match of the rest behind it. -/
theorem value?_eq_some {admits : Char → Bool} {u : Text} {values : List Text}
    (h : value? admits r t = some (u, values)) :
    ∃ v, t = u ++ v ∧ u.all admits = true ∧ capture? r v = some values ∧
      ∀ u' v', t = u' ++ v' → u'.all admits = true → isMatch r v' = true →
        u'.length ≤ u.length := by
  induction t generalizing u with
  | nil =>
    rw [value?_nil, Option.map_eq_some_iff] at h
    obtain ⟨_, hvalues, heq⟩ := h
    cases heq
    refine ⟨[], rfl, rfl, hvalues, ?_⟩
    intro u' v' hcut _ _
    obtain ⟨rfl, -⟩ := List.append_eq_nil_iff.1 hcut.symm
    exact Nat.le_refl _
  | cons c t ih =>
    rw [value?_cons, Option.or_eq_some_iff] at h
    rcases h with h | ⟨hnone, h⟩
    · rw [Option.ite_none_right_eq_some, Option.map_eq_some_iff] at h
      obtain ⟨hc, ⟨u, _⟩, hvalue, heq⟩ := h
      cases heq
      obtain ⟨v, rfl, hu, hvalues, hlongest⟩ := ih hvalue
      refine ⟨v, rfl, by rw [List.all_cons, hc, hu]; rfl, hvalues, ?_⟩
      intro u' v' hcut hu' hv'
      cases u' with
      | nil => exact Nat.zero_le _
      | cons d u' =>
        obtain ⟨-, hcut⟩ := List.cons.inj hcut
        rw [List.all_cons, Bool.and_eq_true] at hu'
        exact Nat.succ_le_succ (hlongest u' v' hcut hu'.2 hv')
    · rw [Option.map_eq_some_iff] at h
      obtain ⟨_, hvalues, heq⟩ := h
      cases heq
      refine ⟨c :: t, rfl, rfl, hvalues, ?_⟩
      intro u' v' hcut hu' hv'
      cases u' with
      | nil => exact Nat.le_refl _
      | cons d u' =>
        -- a longer value would have been found before the empty one
        obtain ⟨rfl, htail⟩ := List.cons.inj hcut
        rw [List.all_cons, Bool.and_eq_true] at hu'
        have hsome := (isSome_value? admits r t).2 ⟨u', v', htail, hu'.2, hv'⟩
        rw [if_pos hu'.1, Option.map_eq_none_iff] at hnone
        rw [hnone] at hsome
        cases hsome

theorem finds_nil : Finds [] .empty where
  isMatch := by
    rintro t _ ⟨ht, -⟩
    exact isMatch_nil.2 ht
  greediest := by
    intro t values h
    rw [capture?_nil, Option.ite_none_right_eq_some] at h
    obtain ⟨ht, heq⟩ := h
    cases heq
    refine ⟨⟨ht, rfl⟩, ?_⟩
    intro others hothers hne
    exact absurd hothers.2 hne

namespace Finds

theorem slash (hr : Finds r R) : Finds (.slash :: r) (.append .slash R) where
  isMatch := by
    rintro _ _ ⟨_, v, _, _, rfl, ⟨rfl, -⟩, hv, -⟩
    exact isMatch_slash.2 ⟨v, rfl, hr.isMatch hv⟩
  greediest := by
    intro t values h
    rw [capture?, Option.bind_eq_some_iff] at h
    obtain ⟨v, hdrop, hvalues⟩ := h
    obtain rfl := Text.dropStart?_beq_eq_some_iff.1 hdrop
    refine (hr.greediest hvalues).behind ⟨rfl, rfl⟩ ?_
    rintro _ _ ⟨rfl, rfl⟩
    exact ⟨rfl, rfl⟩

theorem literal (hr : Finds r R) {s t : Text} {values : List Text}
    (h : capture? (s.foldr consChar [] ++ r) t = some values) :
    Greediest (Decomposition.append (Token.literal s).decomposition R t) values := by
  rw [capture?_literal, Option.bind_eq_some_iff] at h
  obtain ⟨v, hdrop, hvalues⟩ := h
  obtain ⟨u, rfl, hu⟩ := Text.dropStart?_sameFolded_eq_some_iff.1 hdrop
  refine (hr.greediest hvalues).behind ⟨hu, rfl⟩ ?_
  intro u' first hfirst
  obtain ⟨hu', rfl⟩ := hfirst
  have hlower := congrArg List.length (hu'.trans hu.symm)
  rw [Text.length_lower, Text.length_lower] at hlower
  exact ⟨hlower, rfl⟩

/-- A token that captures takes the longest text that a match of the rest stands behind. -/
theorem capturing (hr : Finds r R) {token : Token} (hcaptured : ∀ u, token.captured u = [u])
    {u v : Text} {values : List Text} (hu : token.Spells u) (hvalues : capture? r v = some values)
    (hlongest : ∀ u' v', u ++ v = u' ++ v' → token.Spells u' → r.isMatch v' = true →
      u'.length ≤ u.length) :
    Greediest (Decomposition.append token.decomposition R (u ++ v)) (u :: values) := by
  obtain ⟨hdecomposed, hshorter⟩ := hr.greediest hvalues
  refine ⟨⟨u, v, [u], values, rfl, ⟨hu, (hcaptured u).symm⟩, hdecomposed, rfl⟩, ?_⟩
  rintro _ ⟨u', v', _, others, hcut, ⟨hu', rfl⟩, hothers, rfl⟩ hne
  have hle := hlongest u' v' hcut hu' (hr.isMatch hothers)
  rw [hcaptured] at hne ⊢
  rcases Nat.lt_or_eq_of_le hle with hlt | heq
  · exact .head hlt
  · obtain ⟨rfl, rfl⟩ := List.append_inj hcut heq.symm
    refine .tail rfl (hshorter others hothers ?_)
    intro hsame
    exact hne (congrArg (u :: ·) hsame)

theorem run (hr : Finds r R) (name : Text) {type : ParamType} {t : Text} {values : List Text}
    (h : capture? (.run type :: r) t = some values) :
    Greediest (Decomposition.append (Token.param name type).decomposition R t) values := by
  cases t with
  | nil =>
    rw [capture?_run_nil] at h
    cases h
  | cons c t =>
    rw [capture?_run_cons, Option.ite_none_right_eq_some, Option.map_eq_some_iff] at h
    obtain ⟨hc, ⟨u, values⟩, hvalue, rfl⟩ := h
    obtain ⟨v, rfl, hu, hvalues, hlongest⟩ := value?_eq_some hvalue
    refine hr.capturing (u := c :: u) (fun _ => rfl) ?_ hvalues ?_
    · rw [Token.Spells, ParamType.accepts_cons, hc, hu]
      rfl
    · intro u' v' hcut hu' hv'
      cases u' with
      | nil => exact Nat.zero_le _
      | cons d u' =>
        obtain ⟨-, hcut⟩ := List.cons.inj hcut
        rw [Token.Spells, ParamType.accepts_cons, Bool.and_eq_true] at hu'
        exact Nat.succ_le_succ (hlongest u' v' hcut hu'.2 hv')

theorem rest (hr : Finds r R) (name : Text) {t : Text} {values : List Text}
    (h : capture? (.rest :: r) t = some values) :
    Greediest (Decomposition.append (Token.catchAll name).decomposition R t) values := by
  rw [capture?_rest, Option.map_eq_some_iff] at h
  obtain ⟨⟨u, values⟩, hvalue, rfl⟩ := h
  obtain ⟨v, rfl, hu, hvalues, hlongest⟩ := value?_eq_some hvalue
  refine hr.capturing (fun _ => rfl) (all_ne_lineFeed.1 hu) hvalues ?_
  intro u' v' hcut hu' hv'
  exact hlongest u' v' hcut (all_ne_lineFeed.2 hu') hv'

theorem ofToken (hr : Finds r R) (token : Token) :
    Finds (Regex.ofToken token ++ r) (.append token.decomposition R) where
  isMatch := by
    rintro _ _ ⟨u, v, _, _, rfl, ⟨hu, -⟩, hv, -⟩
    exact isMatch_ofToken.2 ⟨u, v, rfl, hu, hr.isMatch hv⟩
  greediest := by
    intro t values h
    cases token with
    | literal s => exact hr.literal h
    | param name type => exact hr.run name h
    | catchAll name => exact hr.rest name h

theorem tokens (hr : Finds r R) (s : Segment) :
    Finds (s.flatMap Regex.ofToken ++ r) (.append s.decomposition R) := by
  induction s with
  | nil =>
    rw [Segment.decomposition, List.foldr_nil, Decomposition.empty_append]
    exact hr
  | cons token s ih =>
    rw [List.flatMap_cons, List.append_assoc, Segment.decomposition, List.foldr_cons,
      Decomposition.append_assoc]
    exact ih.ofToken token

theorem segments (ss : List Segment) : Finds (ss.flatMap Regex.ofSegment)
    (ss.foldr (fun s => .append (.append .slash s.decomposition)) .empty) := by
  induction ss with
  | nil => exact finds_nil
  | cons s ss ih =>
    rw [List.flatMap_cons, Regex.ofSegment, List.cons_append, List.foldr_cons,
      Decomposition.append_assoc]
    exact (ih.tokens s).slash

end Finds

end Regex

namespace Pattern

variable {p : Pattern} {path : Text} {values : List Text}

theorem finds_regex (p : Pattern) : Regex.Finds p.regex p.decomposition := .segments p.segments

theorem capture?_eq_some_iff :
    p.regex.capture? path = some values ↔ Greediest (p.decomposition path) values := by
  constructor
  · exact p.finds_regex.greediest
  · intro hgreediest
    obtain ⟨captured, hcaptured⟩ := Option.isSome_iff_exists.1 (p.finds_regex.isMatch hgreediest.1)
    rw [hcaptured, hgreediest.unique (p.finds_regex.greediest hcaptured)]

end Pattern

/-! ## Parameters -/

/-- The second parameter has the value of the first with the percent triplets decoded, or the same
value if the decoded bytes are those of no text. -/
def Param.Decoded (p q : Param) : Prop :=
  q.name = p.name ∧ (q.value.utf8 = Text.decodeTriplets p.value.utf8 ∨
    q.value = p.value ∧ ∀ v : Text, v.utf8 ≠ Text.decodeTriplets p.value.utf8)

def Param.decode (p : Param) : Param := ⟨p.name, Text.percentDecode p.value⟩

theorem Param.decode_eq_iff {p q : Param} : p.decode = q ↔ p.Decoded q := by
  obtain ⟨name, value⟩ := q
  rw [decode, Param.mk.injEq, Text.percentDecode_eq_iff, Decoded]
  exact and_congr_left' eq_comm

theorem Params.forall₂_decoded_iff {captured params : Params} :
    List.Forall₂ Param.Decoded captured params ↔ captured.map Param.decode = params := by
  have hdecoded : Param.Decoded = fun p q => p.decode = q := by
    funext p q
    exact propext Param.decode_eq_iff.symm
  rw [hdecoded, ← List.forall₂_map_left_iff, List.forall₂_eq_eq_eq]

namespace Route

variable {e : Route} {path : Text} {params : Params}

theorem names_paramsOf {values : List Text} (h : values.length = e.names.length) :
    (e.paramsOf values).map Param.name = e.names := by
  unfold paramsOf
  generalize e.names = names at h ⊢
  induction values generalizing names with
  | nil => cases names with
    | nil => rfl
    | cons name names => cases h
  | cons v values ih =>
    cases names with
    | nil => cases h
    | cons name names => exact congrArg (name :: ·) (ih names (Nat.succ.inj h))

theorem paramsOf_values (h : params.map Param.name = e.names) :
    e.paramsOf (params.map Param.value) = params := by
  rw [paramsOf, ← h, List.zipWith_map, List.zipWith_self]
  exact List.map_id' params

theorem capture?_raw_iff : e.capture? path false = some params ↔
    params.map Param.name = e.names ∧
      Greediest (e.pattern.decomposition path) (params.map Param.value) := by
  rw [capture?, Option.map_eq_some_iff]
  constructor
  · rintro ⟨values, hvalues, rfl⟩
    have hgreediest := Pattern.capture?_eq_some_iff.1 hvalues
    have hlength : values.length = e.names.length := Pattern.length_of_decomposition hgreediest.1
    refine ⟨names_paramsOf hlength, ?_⟩
    rw [if_neg Bool.false_ne_true, values_paramsOf hlength]
    exact hgreediest
  · rintro ⟨hnames, hgreediest⟩
    exact ⟨_, Pattern.capture?_eq_some_iff.2 hgreediest, paramsOf_values hnames⟩

/-- Decoding replaces each value by one that it is decoded to. -/
theorem capture?_decoded_iff : e.capture? path true = some params ↔
    ∃ captured, e.capture? path false = some captured ∧
      List.Forall₂ Param.Decoded captured params := by
  have hdecode : ∀ values : List Text, e.paramsOf (values.map Text.percentDecode) =
      (e.paramsOf values).map Param.decode := by
    intro values
    rw [paramsOf, paramsOf, List.zipWith_map_right, List.map_zipWith]
    rfl
  simp only [Params.forall₂_decoded_iff, capture?, Option.map_eq_some_iff, if_true,
    if_neg Bool.false_ne_true, hdecode]
  constructor
  · rintro ⟨values, hvalues, rfl⟩
    exact ⟨_, ⟨values, hvalues, rfl⟩, rfl⟩
  · rintro ⟨_, ⟨values, hvalues, rfl⟩, rfl⟩
    exact ⟨values, hvalues, rfl⟩

/-- A route captures a path if its pattern spells it. The parameters have the names of the pattern,
in its order, and the values are the greediest, decoded if asked for. -/
structure CapturesGreediest (e : Route) (path : Text) : Prop where
  /-- The written expression has a capture for each name, and the values are what it captures. -/
  written : ∃ written, Expression.read? e.pattern.regex.source = some written ∧
    Expression.groups written = e.names.length ∧
    e.capture? path false = (Expression.captures? written path).map e.paramsOf
  spelled : (e.capture? path false).isSome = true ↔ e.pattern.Spells path
  greediest : ∀ params, e.capture? path false = some params ↔
    params.map Param.name = e.names ∧
      Greediest (e.pattern.decomposition path) (params.map Param.value)
  decoded : ∀ params, e.capture? path true = some params ↔
    ∃ captured, e.capture? path false = some captured ∧
      List.Forall₂ Param.Decoded captured params

/-- What a route captures is what its expression, read as it is written, captures, and that is the
greediest way to take the path apart. -/
theorem captures_greediest (e : Route) (path : Text) : e.CapturesGreediest path where
  written := by
    refine ⟨e.pattern.regex.expression, Expression.read?_source e.pattern.foldsAscii_regex,
      e.pattern.groups_expression, ?_⟩
    rw [Expression.captures?_expression, capture?]
    simp only [if_neg Bool.false_ne_true]
  spelled := by
    rw [capture?, Option.isSome_map]
    exact Pattern.isMatch_regex
  greediest := fun _ => capture?_raw_iff
  decoded := fun _ => capture?_decoded_iff

/-- `/{a}_{b}` takes `/x_y_z` apart at the last underscore. -/
example : capture? ⟨⟨[[.param ['a'] .word, .literal ['_'], .param ['b'] .word]]⟩, [], 0⟩
    ['/', 'x', '_', 'y', '_', 'z'] false = some [⟨['a'], ['x', '_', 'y']⟩, ⟨['b'], ['z']⟩] := by
  decide

end Route

end HttpRouting
