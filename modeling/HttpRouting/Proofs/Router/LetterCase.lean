import HttpRouting.Proofs.Router.Captures
import HttpRouting.Proofs.Router.Priority
import HttpRouting.Proofs.Text.LetterCase
import Mathlib.Data.List.Infix

/-!
# The spelling of a path

Two paths that differ in letter case only are cut alike: a pattern takes the one apart in the same
ways as the other (`Decomposition.CaseBlind`), so the greediest values have the same lengths, and
they too differ in letter case only. A router resolves both in the same way
(`Reachable.resolve_spelling`), and the values are pieces of the path that they were captured from.
-/

namespace HttpRouting

/-! ## Forms of a path

Slashes and dots are no letters, so a slash is trimmed or flipped in any case of letters alike. -/

namespace Text

variable {c : Char} (hc : c.isAlpha = false) (t : Text)

include hc in
theorem getLast?_lower : (lower t).getLast? = some c ↔ t.getLast? = some c := by
  rw [lower, List.getLast?_map, Option.map_eq_some_iff]
  simp only [toLower_eq_iff hc, exists_eq_right]

include hc in
theorem contains_lower : (lower t).contains c = t.contains c := by
  rw [Bool.eq_iff_iff, List.contains_iff_mem, List.contains_iff_mem, lower, List.mem_map]
  simp only [toLower_eq_iff hc, exists_eq_right]

include hc in
theorem lower_eq_singleton : lower t = [c] ↔ t = [c] := by
  rw [lower, List.map_eq_singleton_iff]
  simp only [toLower_eq_iff hc, exists_eq_right]

end Text

namespace Path

theorem beforeSlash?_lower (path : Text) :
    beforeSlash? (Text.lower path) = (beforeSlash? path).map Text.lower := by
  unfold beforeSlash?
  rw [if_congr (Text.getLast?_lower (by decide) path) rfl rfl]
  split
  · exact congrArg some List.map_dropLast.symm
  · rfl

theorem lastSegment_lower (path : Text) :
    lastSegment (Text.lower path) = Text.lower (lastSegment path) := by
  have hslash : ∀ c : Char, decide (c.toLower ≠ '/') = decide (c ≠ '/') := by
    intro c
    rw [decide_eq_decide, Ne, Text.toLower_eq_iff (by decide)]
  have hreverse : ∀ t : Text, (Text.lower t).reverse = Text.lower t.reverse :=
    fun t => List.map_reverse.symm
  rw [lastSegment, hreverse, Text.takeWhile_lower hslash, hreverse, lastSegment]

theorem flipSlash_lower (path : Text) :
    flipSlash (Text.lower path) = Text.lower (flipSlash path) := by
  unfold flipSlash
  rw [beforeSlash?_lower]
  rcases beforeSlash? path with _ | _ | ⟨c, front⟩
  · exact (Text.lower_append path ['/']).symm
  · rfl
  · rfl

theorem trimSlash_lower (path : Text) :
    trimSlash (Text.lower path) = Text.lower (trimSlash path) := by
  have hdot : '.'.isAlpha = false := by decide
  unfold trimSlash
  rw [if_congr (Text.lower_eq_singleton (by decide) path) rfl rfl, beforeSlash?_lower]
  cases beforeSlash? path with
  | none => rw [Option.map_none, ite_self, ite_self]
  | some front =>
    simp only [Option.map_some, lastSegment_lower, Text.contains_lower hdot, apply_ite Text.lower]

end Path

/-! ## Taking texts apart -/

section

variable {P : Decomposition → Prop} (hempty : P .empty)
  (happend : ∀ {A B}, P A → P B → P (A.append B)) (htoken : ∀ token : Token, P token.decomposition)

include hempty happend htoken in
theorem Segment.decomposition_induction (s : Segment) : P s.decomposition := by
  induction s with
  | nil => exact hempty
  | cons token s ih => exact happend (htoken token) ih

include hempty happend htoken in
/-- What holds of the parts and of two parts put together holds of the pattern. -/
theorem Pattern.decomposition_induction (p : Pattern) (hslash : P .slash) : P p.decomposition := by
  obtain ⟨segments⟩ := p
  induction segments with
  | nil => exact hempty
  | cons s segments ih =>
    exact happend (happend hslash (s.decomposition_induction hempty happend htoken)) ih

end

namespace Decomposition

/-- A text is taken apart in the same ways as any other that differs from it in letter case only. -/
def CaseBlind (A : Decomposition) : Prop :=
  ∀ (t u : Text) (values : List Text), A t values → Text.lower t = Text.lower u →
    ∃ values', A u values' ∧ values.map Text.lower = values'.map Text.lower

namespace CaseBlind

theorem empty : CaseBlind .empty := by
  rintro _ u _ ⟨rfl, rfl⟩ h
  exact ⟨[], ⟨Text.lower_eq_nil.1 h.symm, rfl⟩, rfl⟩

theorem slash : CaseBlind .slash := by
  rintro _ u _ ⟨rfl, rfl⟩ h
  exact ⟨[], ⟨(Text.lower_eq_singleton (by decide) u).1 h.symm, rfl⟩, rfl⟩

theorem append {A B : Decomposition} (hA : A.CaseBlind) (hB : B.CaseBlind) :
    (A.append B).CaseBlind := by
  rintro _ u _ ⟨t, t', first, rest, rfl, hfirst, hrest, rfl⟩ h
  rw [Text.lower_append] at h
  obtain ⟨u, u', rfl, hu, hu'⟩ := List.map_eq_append_iff.1 h.symm
  obtain ⟨first', hfirst', hvalues⟩ := hA _ _ _ hfirst hu.symm
  obtain ⟨rest', hrest', hvalues'⟩ := hB _ _ _ hrest hu'.symm
  refine ⟨first' ++ rest', ⟨u, u', first', rest', rfl, hfirst', hrest', rfl⟩, ?_⟩
  rw [List.map_append, List.map_append, hvalues, hvalues']

end CaseBlind

end Decomposition

theorem Token.spells_congr {token : Token} {t u : Text} (h : Text.lower t = Text.lower u)
    (ht : token.Spells t) : token.Spells u := by
  cases token with
  | literal s => exact h.symm.trans ht
  | param name type =>
    have haccepts := (Shape.param type).accepts_lower
    exact (haccepts u).symm.trans (h ▸ (haccepts t).trans ht)
  | catchAll name =>
    have hlineFeed : ∀ t : Text, '\n' ∈ Text.lower t ↔ '\n' ∈ t := by
      intro t
      simp only [Text.lower, List.mem_map, Text.toLower_eq_iff (d := '\n') (by decide),
        exists_eq_right]
    intro hu
    rw [← hlineFeed, ← h, hlineFeed] at hu
    exact ht hu

theorem Token.caseBlind (token : Token) : token.decomposition.CaseBlind := by
  rintro t u _ ⟨ht, rfl⟩ h
  refine ⟨_, ⟨spells_congr h ht, rfl⟩, ?_⟩
  cases token with
  | literal s => rfl
  | param name type => exact congrArg ([·]) h
  | catchAll name => exact congrArg ([·]) h

theorem Pattern.caseBlind (p : Pattern) : p.decomposition.CaseBlind :=
  p.decomposition_induction .empty .append Token.caseBlind .slash

/-! ## The greediest values -/

/-- Only the lengths matter to which values are shorter. -/
theorem Shorter.congr {us vs us' vs' : List Text} (h : Shorter us vs)
    (hus : us.map List.length = us'.map List.length)
    (hvs : vs.map List.length = vs'.map List.length) : Shorter us' vs' := by
  induction h generalizing us' vs' with
  | head hlt =>
    obtain ⟨u, us', rfl, hu, -⟩ := List.map_eq_cons_iff.1 hus.symm
    obtain ⟨v, vs', rfl, hv, -⟩ := List.map_eq_cons_iff.1 hvs.symm
    exact .head (by omega)
  | tail heq _ ih =>
    obtain ⟨u, us', rfl, hu, hus⟩ := List.map_eq_cons_iff.1 hus.symm
    obtain ⟨v, vs', rfl, hv, hvs⟩ := List.map_eq_cons_iff.1 hvs.symm
    exact .tail (by omega) (ih hus.symm hvs.symm)

theorem Text.map_length_of_lower {us vs : List Text} (h : us.map lower = vs.map lower) :
    us.map List.length = vs.map List.length := by
  have hlengths : ∀ ts : List Text, (ts.map lower).map List.length = ts.map List.length := by
    intro ts
    rw [List.map_map]
    exact List.map_congr_left fun t _ => length_lower t
  rw [← hlengths us, h, hlengths vs]

/-- Where the one text has longer values in some way, so has the other. -/
theorem Decomposition.CaseBlind.lower_eq {A : Decomposition} (hA : A.CaseBlind) {t u : Text}
    (h : Text.lower t = Text.lower u) {vs us : List Text} (hvs : Greediest (A t) vs)
    (hus : Greediest (A u) us) : vs.map Text.lower = us.map Text.lower := by
  obtain ⟨us', hus', hlower⟩ := hA t u vs hvs.1 h
  obtain ⟨vs', hvs', hlower'⟩ := hA u t us hus.1 h.symm
  by_cases hsame : us' = us
  · rw [hlower, hsame]
  by_cases hsame' : vs' = vs
  · rw [hlower', hsame']
  have hshorter := (hvs.2 vs' hvs' hsame').congr (Text.map_length_of_lower hlower'.symm)
    (Text.map_length_of_lower hlower)
  exact absurd hshorter (hus.2 us' hus' hsame).asymm

namespace Pattern

/-- What the expression captures of texts that differ in letter case only does so too. -/
theorem capture?_regex_fold (p : Pattern) {t u : Text} (h : Text.lower t = Text.lower u) :
    (p.regex.capture? t).map (List.map Text.lower) =
      (p.regex.capture? u).map (List.map Text.lower) := by
  have hmatch : ∀ {t u : Text}, Text.lower t = Text.lower u → p.regex.capture? u = none →
      p.regex.capture? t = none := by
    intro t u h hnone
    rw [Option.eq_none_iff_forall_ne_some]
    intro vs hvs
    obtain ⟨us, hus, -⟩ := p.caseBlind t u vs (capture?_eq_some_iff.1 hvs).1 h
    have hsome := p.finds_regex.isMatch hus
    rw [Regex.isMatch, hnone] at hsome
    cases hsome
  cases ht : p.regex.capture? t with
  | none => rw [hmatch h.symm ht]
  | some vs =>
    cases hu : p.regex.capture? u with
    | none => rw [hmatch h hu] at ht; cases ht
    | some us =>
      exact congrArg some (p.caseBlind.lower_eq h (capture?_eq_some_iff.1 ht)
        (capture?_eq_some_iff.1 hu))

theorem capture?_key_fold (p : Pattern) {t u : Text} (h : Text.lower t = Text.lower u) :
    (p.key.capture? t).map (List.map Text.lower) =
      (p.key.capture? u).map (List.map Text.lower) := by
  cases hp : p.isWalkable with
  | true => rw [← capture?_regex hp, ← capture?_regex hp, p.capture?_regex_fold h]
  | false => rw [capture?_key_of_not_walkable hp, capture?_key_of_not_walkable hp]

end Pattern

/-! ## Resolutions -/

theorem findSome?_congr {α β : Type} {f g : α → Option β} {l : List α}
    (h : ∀ a ∈ l, f a = g a) : l.findSome? f = l.findSome? g := by
  induction l with
  | nil => rfl
  | cons a l ih =>
    obtain ⟨ha, hl⟩ := List.forall_mem_cons.1 h
    rw [List.findSome?_cons, List.findSome?_cons, ha, ih hl]

theorem eq_none_or_eq_some_of_map {α β γ : Type} {f : β → γ} {x y : Option (α × β)}
    (h : x.map (Prod.map id f) = y.map (Prod.map id f)) :
    (x = none ∧ y = none) ∨ ∃ a b c, x = some (a, b) ∧ y = some (a, c) ∧ f b = f c := by
  rcases x with _ | ⟨a, b⟩ <;> rcases y with _ | ⟨a', c⟩
  · exact .inl ⟨rfl, rfl⟩
  · cases h
  · cases h
  · obtain ⟨ha, hf⟩ := Prod.mk.inj (Option.some.inj h)
    obtain rfl : a = a' := ha
    exact .inr ⟨a, b, c, rfl, rfl, hf⟩

/-- The parameter with its value in lower case. -/
def Param.folded (p : Param) : Param := ⟨p.name, Text.lower p.value⟩

/-- The parameters with their values in lower case. -/
def Params.folded (ps : Params) : Params := ps.map Param.folded

/-- The resolution with the values of its parameters in lower case. -/
def Resolution.folded : Resolution → Resolution
  | .walked e params => .walked e params.folded
  | .scanned e params => .scanned e params.folded
  | x => x

namespace Route

theorem folded_paramsOf (e : Route) (values : List Text) :
    (e.paramsOf values).folded = e.paramsOf (values.map Text.lower) := by
  rw [paramsOf, paramsOf, List.zipWith_map_right, Params.folded, List.map_zipWith]
  rfl

/-- Whether the values are decoded or not, only their lower-case forms matter to those of the
parameters. -/
theorem capture?_folded (e : Route) {t u : Text} (h : Text.lower t = Text.lower u)
    (unescape : Bool) : (e.capture? t unescape).map Params.folded =
      (e.capture? u unescape).map Params.folded := by
  have hvalues : ∀ values : List Text,
      (if unescape then values.map Text.percentDecode else values).map Text.lower =
        (if unescape then (values.map Text.lower).map Text.percentDecode
          else values.map Text.lower).map Text.lower := by
    intro values
    cases unescape with
    | true =>
      simp only [if_true, List.map_map]
      exact List.map_congr_left fun v _ =>
        Text.lower_percentDecode_congr (Text.lower_lower v).symm
    | false =>
      simp only [if_neg Bool.false_ne_true, List.map_map]
      exact List.map_congr_left fun v _ => (Text.lower_lower v).symm
  have hcapture : ∀ t : Text, (e.capture? t unescape).map Params.folded =
      ((e.pattern.regex.capture? t).map (List.map Text.lower)).map fun values =>
        (e.paramsOf (if unescape then values.map Text.percentDecode else values)).folded := by
    intro t
    simp only [capture?, Option.map_map, Function.comp_def, folded_paramsOf, ← hvalues]
  rw [hcapture t, e.pattern.capture?_regex_fold h, hcapture u]

end Route

theorem Fallback.firstMatch_folded {t u : Text} (h : Text.lower t = Text.lower u)
    (unescape : Bool) (routes : List Route) :
    (firstMatch t unescape routes).map (Prod.map id Params.folded) =
      (firstMatch u unescape routes).map (Prod.map id Params.folded) := by
  have hmatch : ∀ t : Text, (firstMatch t unescape routes).map (Prod.map id Params.folded) =
      routes.findSome? fun e => ((e.capture? t unescape).map Params.folded).map (e, ·) := by
    intro t
    simp only [firstMatch, List.map_findSome?, Function.comp_def, Option.map_map, Prod.map, id]
  rw [hmatch t, hmatch u]
  simp only [Route.capture?_folded _ h]

namespace MethodRoutes

variable {t : MethodRoutes} {path path' : Text}

namespace Valid

theorem lookup_folded (ht : t.Valid) (h : Text.lower path = Text.lower path') :
    (t.tree.lookup path).map (Prod.map id (List.map Text.lower)) =
      (t.tree.lookup path').map (Prod.map id (List.map Text.lower)) := by
  have hlookup : ∀ path : Text,
      (t.tree.lookup path).map (Prod.map id (List.map Text.lower)) =
        t.tree.entries.findSome? fun e =>
          ((e.1.capture? path).map (List.map Text.lower)).map (e.2, ·) := by
    intro path
    rw [ht.lookup_eq, firstTaken, List.map_findSome?]
    simp only [Function.comp_def, Option.map_map, Prod.map, id]
  rw [hlookup path, hlookup path']
  refine findSome?_congr fun e he => ?_
  obtain ⟨-, hkey⟩ := ht.grown.mem_entries.1 he
  rw [hkey, Pattern.capture?_key_fold _ h]

theorem resolvesFlipped_congr (ht : t.Valid) (h : Text.lower path = Text.lower path') :
    t.resolvesFlipped path = t.resolvesFlipped path' := by
  have hflip : Text.lower (Path.flipSlash path) = Text.lower (Path.flipSlash path') := by
    rw [← Path.flipSlash_lower, h, Path.flipSlash_lower]
  have hroot : path = ['/'] ↔ path' = ['/'] := by
    rw [← Text.lower_eq_singleton (by decide) path, h, Text.lower_eq_singleton (by decide)]
  have hlookup := congrArg Option.isSome (ht.lookup_folded hflip)
  rw [Option.isSome_map, Option.isSome_map] at hlookup
  rw [resolvesFlipped, resolvesFlipped, hlookup]
  simp only [ne_eq, hroot]

theorem resolve_folded (ht : t.Valid) (h : Text.lower path = Text.lower path') (unescape : Bool) :
    (t.resolve path unescape).folded = (t.resolve path' unescape).folded := by
  have htrim : Text.lower (Path.trimSlash path) = Text.lower (Path.trimSlash path') := by
    rw [← Path.trimSlash_lower, h, Path.trimSlash_lower]
  have hscan := fun routes => eq_none_or_eq_some_of_map
    (Fallback.firstMatch_folded htrim unescape routes)
  unfold resolve
  rw [ht.resolvesFlipped_congr h]
  rcases eq_none_or_eq_some_of_map (ht.lookup_folded h) with
    ⟨hnone, hnone'⟩ | ⟨e, values, values', hsome, hsome', hvalues⟩
  · simp only [hnone, hnone', Fallback.findUnwalkable, Fallback.find]
    split
    · rcases hscan (t.fallback.routes.filter fun r => !r.pattern.isWalkable) with
        ⟨hnone, hnone'⟩ | ⟨e, params, params', hsome, hsome', hparams⟩
      · rw [hnone, hnone']
      · rw [hsome, hsome']
        exact congrArg (Resolution.scanned e) hparams
    · rcases hscan t.fallback.routes with
        ⟨hnone, hnone'⟩ | ⟨e, params, params', hsome, hsome', hparams⟩
      · rw [hnone, hnone']
      · rw [hsome, hsome']
        exact congrArg (Resolution.scanned e) hparams
  · rw [hsome, hsome']
    simp only [Resolution.folded, Route.folded_paramsOf, hvalues]

end Valid

end MethodRoutes

/-! ## Pieces of the path -/

namespace Decomposition

/-- The values are pieces of the text. -/
def Within (A : Decomposition) : Prop :=
  ∀ (t : Text) (values : List Text), A t values → ∀ v ∈ values, v <:+: t

namespace Within

theorem empty : Within .empty := by
  rintro t _ ⟨-, rfl⟩
  exact nofun

theorem slash : Within .slash := by
  rintro t _ ⟨-, rfl⟩
  exact nofun

theorem append {A B : Decomposition} (hA : A.Within) (hB : B.Within) :
    (A.append B).Within := by
  rintro _ _ ⟨t, u, first, rest, rfl, hfirst, hrest, rfl⟩ v hv
  rcases List.mem_append.1 hv with hv | hv
  · exact (hA t first hfirst v hv).trans (List.prefix_append t u).isInfix
  · exact (hB u rest hrest v hv).trans (List.suffix_append t u).isInfix

end Within

end Decomposition

theorem Token.within (token : Token) : token.decomposition.Within := by
  rintro t _ ⟨-, rfl⟩ v hv
  cases token with
  | literal s => cases hv
  | param name type | catchAll name =>
    obtain rfl : v = t := List.mem_singleton.1 hv
    exact List.infix_rfl

theorem Segment.within (s : Segment) : s.decomposition.Within :=
  s.decomposition_induction .empty .append Token.within

theorem Pattern.within (p : Pattern) : p.decomposition.Within :=
  p.decomposition_induction .empty .append Token.within .slash

/-- The first slash of a path is in no value. -/
theorem Pattern.infix_tail_of_decomposition {p : Pattern} {t : Text} {values : List Text}
    (h : p.decomposition t values) : ∀ v ∈ values, v <:+: t.tail := by
  obtain ⟨_ | ⟨s, segments⟩⟩ := p
  · obtain ⟨-, rfl⟩ := h
    exact nofun
  · have hbehind : (s.decomposition.append (decomposition ⟨segments⟩)).Within :=
      s.within.append (within ⟨segments⟩)
    rw [decomposition, List.foldr_cons, Decomposition.append_assoc] at h
    obtain ⟨_, u, _, _, rfl, ⟨rfl, rfl⟩, hrest, rfl⟩ := h
    exact hbehind u _ hrest

theorem Path.trimSlash_isPrefix (path : Text) : trimSlash path <+: path := by
  unfold trimSlash
  split
  · exact List.prefix_rfl
  · split
    · exact List.prefix_rfl
    · next front hfront =>
      rw [eq_of_beforeSlash? hfront]
      split
      · exact List.prefix_rfl
      · exact List.prefix_append front ['/']

theorem Path.tail_squeeze_isInfix (path : Text) : (squeeze path).tail <:+: squeezeRuns path := by
  unfold squeeze
  split
  · exact List.nil_infix
  · exact (List.tail_suffix _).isInfix

namespace Route

variable {e : Route} {path : Text} {params : Params}

theorem tail_formOf_isInfix (e : Route) (path : Text) :
    (e.formOf path).tail <:+: Path.squeezeRuns path := by
  refine List.IsInfix.trans ?_ (Path.tail_squeeze_isInfix path)
  unfold formOf
  split
  · exact List.infix_rfl
  · have hprefix := List.IsPrefix.drop (Path.trimSlash_isPrefix (Path.squeeze path)) 1
    rw [List.drop_one, List.drop_one] at hprefix
    exact hprefix.isInfix

theorem infix_tail_of_capture? (h : e.capture? path false = some params) :
    ∀ a ∈ params, a.value <:+: path.tail := by
  intro a ha
  have hgreediest := (capture?_raw_iff.1 h).2
  exact Pattern.infix_tail_of_decomposition hgreediest.1 a.value (List.mem_map_of_mem ha)

end Route

namespace Resolution

theorem folded_advisesSlash (x : Resolution) : x.folded.advisesSlash = x.advisesSlash := by
  cases x <;> rfl

theorem folded_route? (x : Resolution) : x.folded.route? = x.route? := by
  cases x <;> rfl

theorem folded_params (x : Resolution) : x.folded.params = x.params.folded := by
  cases x <;> rfl

theorem mem_params {x : Resolution} {a : Param} (h : a ∈ x.params) :
    ∃ e params, x.found? = some (e, params) ∧ a ∈ params := by
  unfold params at h
  cases hfound : x.found? with
  | none => rw [hfound] at h; cases h
  | some found => rw [hfound] at h; exact ⟨found.1, found.2, rfl, h⟩

end Resolution

theorem Params.forall₂_of_folded {ps qs : Params} (h : ps.folded = qs.folded) :
    List.Forall₂ (fun a b => a.name = b.name ∧ Text.lower a.value = Text.lower b.value) ps qs := by
  have hfolded : (fun a b : Param => a.name = b.name ∧ Text.lower a.value = Text.lower b.value) =
      fun a b => a.folded = b.folded := by
    funext a b
    rw [Param.folded, Param.folded, Param.mk.injEq]
  rw [hfolded]
  exact List.forall₂_map_right_iff.1 (List.forall₂_map_left_iff.1 (List.forall₂_eq_eq_eq ▸ h))

namespace Router

variable {r : Router} {p q : Text}

theorem Valid.resolve_folded (hr : r.Valid)
    (h : Text.lower (Path.squeeze p) = Text.lower (Path.squeeze q)) (m : Method)
    (unescape : Bool) :
    (r.resolve m p unescape).folded = (r.resolve m q unescape).folded := by
  unfold resolve
  cases hm : r.routesOf? m with
  | none => rfl
  | some t => exact (hr.valid m t hm).resolve_folded h unescape

/-- A value is captured as it stands in the squeezed path. -/
theorem Valid.infix_of_mem_params (hr : r.Valid) (m : Method) (path : Text) {a : Param}
    (ha : a ∈ (r.resolve m path false).params) : a.value <:+: Path.squeezeRuns path := by
  obtain ⟨e, params, hfound, ha⟩ := Resolution.mem_params ha
  have hcapture := hr.capture?_of_found? m path false hfound
  exact (Route.infix_tail_of_capture? hcapture a ha).trans (e.tail_formOf_isInfix path)

/-- Two paths that are the same but for runs of slashes and the case of ASCII letters are resolved
to the same route, or with the same advice. The parameters have the same names and, letter case
aside, the same values; one that is not decoded is a piece of its own path, slashes squeezed, as it
is written there. The empty path is the root. -/
theorem Reachable.resolve_spelling (hr : r.Reachable)
    (h : Text.lower (Path.squeeze p) = Text.lower (Path.squeeze q)) (m : Method)
    (unescape : Bool) :
    let x := r.resolve m p unescape
    let y := r.resolve m q unescape
    x.route? = y.route? ∧ x.advisesSlash = y.advisesSlash ∧
    List.Forall₂ (fun a b => a.name = b.name ∧ Text.lower a.value = Text.lower b.value)
      x.params y.params ∧
    (unescape = false → (∀ a ∈ x.params, a.value <:+: Path.squeezeRuns p) ∧
      ∀ b ∈ y.params, b.value <:+: Path.squeezeRuns q) := by
  intro x y
  have hsame : x.folded = y.folded := hr.valid.resolve_folded h m unescape
  refine ⟨?_, ?_, ?_, ?_⟩
  · rw [← x.folded_route?, hsame, y.folded_route?]
  · rw [← x.folded_advisesSlash, hsame, y.folded_advisesSlash]
  · apply Params.forall₂_of_folded
    rw [← x.folded_params, hsame, y.folded_params]
  · rintro rfl
    exact ⟨fun a => hr.valid.infix_of_mem_params m p, fun b => hr.valid.infix_of_mem_params m q⟩

/-- Under `/{n}-F/*p` the paths `/A-f//%4a` and `/a-F/%4A` lead to the same route. -/
theorem Reachable.resolve_spelling_mixed : ∃ (r : Router) (p q : Text), Reachable r ∧
    Text.lower (Path.squeeze p) = Text.lower (Path.squeeze q) ∧
    (r.resolve .get p true).route? = (r.resolve .get q true).route? ∧
    (r.resolve .get p true).params = [⟨['n'], ['A']⟩, ⟨['p'], ['J']⟩] ∧
    (r.resolve .get q false).params = [⟨['n'], ['a']⟩, ⟨['p'], ['%', '4', 'A']⟩] := by
  have hr : Reachable _ := .register .empty .get
    ['/', '{', 'n', '}', '-', 'F', '/', '*', 'p'] []
  have h : Text.lower (Path.squeeze ['/', 'A', '-', 'f', '/', '/', '%', '4', 'a']) =
      Text.lower (Path.squeeze ['/', 'a', '-', 'F', '/', '%', '4', 'A']) := by decide
  exact ⟨_, _, _, hr, h, (hr.resolve_spelling h .get true).1, by decide +kernel,
    by decide +kernel⟩

end Router

end HttpRouting
