import HttpRouting.Proofs.Router.Priority

/-!
# Patterns that differ in names

Patterns that differ in the names of their parameters only have the same expression, so that every
path of one is a path of the other. Of two routes with such patterns the fallback table answers with
the older one. A walk goes by spellings: it prefers the one that was there first up to where the
patterns part, and a third route may have brought that one in (`Pattern.Leads`).
-/

namespace HttpRouting

/-! ## Variants -/

/-- The token without the name of its parameter. -/
def Token.unnamed : Token → Token
  | .literal t => .literal t
  | .param _ type => .param [] type
  | .catchAll _ => .catchAll []

/-- The segment without the names of its parameters. -/
def Segment.unnamed (s : Segment) : Segment := s.map Token.unnamed

/-- The patterns are the same but for the names of their parameters. -/
def Pattern.Variant (p q : Pattern) : Prop :=
  p.segments.map Segment.unnamed = q.segments.map Segment.unnamed

instance (p q : Pattern) : Decidable (p.Variant q) := inferInstanceAs (Decidable (_ = _))

theorem Regex.ofToken_unnamed (token : Token) : ofToken token.unnamed = ofToken token := by
  cases token <;> rfl

namespace Segment

theorem isLiteral_unnamed (s : Segment) : isLiteral s.unnamed = isLiteral s :=
  isLiteral_map (fun token => by cases token <;> rfl) s

theorem isParam_unnamed (s : Segment) : isParam s.unnamed = isParam s := by
  match s with
  | [] => rfl
  | [.literal _] | [.param _ _] | [.catchAll _] => rfl
  | token :: _ :: _ => cases token <;> rfl

theorem ofSegment_unnamed (s : Segment) : Regex.ofSegment s.unnamed = Regex.ofSegment s := by
  unfold Regex.ofSegment unnamed
  rw [List.flatMap_map]
  simp only [Regex.ofToken_unnamed]

theorem isLiteral_eq_false_of_isParam {s : Segment} (h : isParam s = true) :
    isLiteral s = false := by
  obtain ⟨name, type, rfl⟩ := isParam_cases h
  rfl

end Segment

namespace Pattern

variable {p q : Pattern} {i j : Nat} {s s' s₁ s₁' : Segment}

namespace Variant

theorem symm (h : p.Variant q) : q.Variant p := Eq.symm h

theorem regex_eq (h : p.Variant q) : p.regex = q.regex := by
  have hregex : ∀ p : Pattern,
      p.regex = (p.segments.map Segment.unnamed).flatMap Regex.ofSegment := by
    intro p
    rw [List.flatMap_map]
    simp only [Segment.ofSegment_unnamed]
    rfl
  rw [hregex p, hregex q, h]

theorem isWalkable_eq (h : p.Variant q) : p.isWalkable = q.isWalkable := by
  have hwalkable : ∀ p : Pattern, p.isWalkable =
      (p.segments.map Segment.unnamed).all fun s => Segment.isLiteral s || Segment.isParam s := by
    intro p
    rw [List.all_map]
    simp only [Function.comp_def, Segment.isLiteral_unnamed, Segment.isParam_unnamed]
    rfl
  rw [hwalkable p, hwalkable q, h]

/-- A literal segment stands against a literal one. -/
theorem isLiteral_eq (h : p.Variant q) (hpart : p.PartAt q i s s') :
    Segment.isLiteral s = Segment.isLiteral s' := by
  have hsegment : (p.segments.map Segment.unnamed)[i]? = (q.segments.map Segment.unnamed)[i]? :=
    congrArg (·[i]?) h
  rw [List.getElem?_map, List.getElem?_map, hpart.left, hpart.right] at hsegment
  have hsame := Option.some.inj hsegment
  rw [← Segment.isLiteral_unnamed s, ← Segment.isLiteral_unnamed s', hsame]

end Variant

namespace PartAt

theorem symm (h : p.PartAt q i s s') : q.PartAt p i s' s where
  left := h.right
  right := h.left
  before := h.before.symm
  apart := h.apart.symm

theorem not_lt (h : p.PartAt q i s s') (h' : p.PartAt q j s₁ s₁') : ¬ i < j := by
  intro hlt
  have hbefore := congrArg (·[i]?) h'.before
  simp only [List.getElem?_take_of_lt hlt, spelling, List.getElem?_map, h.left, h.right,
    Option.map_some] at hbefore
  exact h.apart (Option.some.inj hbefore)

/-- Patterns part at one segment. -/
theorem index_eq (h : p.PartAt q i s s') (h' : p.PartAt q j s₁ s₁') : i = j := by
  have hij := h.not_lt h'
  have hji := h'.not_lt h
  omega

end PartAt

/-! ## Spellings that were there first -/

/-- Where two patterns part, the first route that is spelled like `p` up to there was registered
before the first that is spelled like `q`. -/
def Leads (routes : List Route) (p q : Pattern) : Prop :=
  ∃ i s s' first first', p.PartAt q i s s' ∧ firstLike routes p i = some first ∧
    firstLike routes q i = some first' ∧ first.number < first'.number

theorem Leads.asymm {routes : List Route} (h : Leads routes p q) : ¬ Leads routes q p := by
  obtain ⟨i, s, s', first, first', hpart, hfirst, hfirst', hlt⟩ := h
  intro h
  obtain ⟨j, s₁, s₁', first₁, first₁', hpart₁, hfirst₁, hfirst₁', hlt₁⟩ := h
  obtain rfl := hpart.index_eq hpart₁.symm
  obtain rfl := Option.some.inj (hfirst.symm.trans hfirst₁')
  obtain rfl := Option.some.inj (hfirst'.symm.trans hfirst₁)
  omega

end Pattern

/-! ## Which variant answers -/

namespace MethodRoutes.Valid

variable {t : MethodRoutes} {e e' : Route} {path : Text} {values : List Text}

theorem lookup_of_found? (ht : t.Valid) (he : e ∈ t.routes) (hwalks : e.Walks path)
    {unescape : Bool} {params : Params}
    (hfound : (t.resolve path unescape).found? = some (e, params)) :
    ∃ values, t.tree.lookup path = some (e, values) := by
  rcases ht.lookup_cases path with ⟨r, -, captured, -, hlookup⟩ | ⟨hnot, -⟩
  · rw [resolve, hlookup] at hfound
    cases hfound
    exact ⟨captured, hlookup⟩
  · exact absurd ⟨e, he, hwalks⟩ hnot

/-- A walk ends at the variant that leads. -/
theorem leads_of_lookup (ht : t.Valid) (hlookup : t.tree.lookup path = some (e, values))
    (hwalks : e.Walks path) (he' : e' ∈ t.routes) (hvariant : e.pattern.Variant e'.pattern)
    (htext : Text.lower e.text ≠ Text.lower e'.text) :
    Pattern.Leads t.routes e.pattern e'.pattern := by
  have hwalks' : e'.Walks path := by
    rw [Route.Walks, ← hvariant.isWalkable_eq, ← hvariant.regex_eq]
    exact hwalks
  have hne : e' ≠ e := by
    intro heq
    rw [heq] at htext
    exact htext rfl
  obtain ⟨i, s, s', hpart, hparts⟩ := ht.lookup_priority hlookup he' hwalks' hne htext
  rcases hparts with ⟨hlit, hparam⟩ | ⟨-, -, first, first', hfirst⟩
  · rw [hvariant.isLiteral_eq hpart, Segment.isLiteral_eq_false_of_isParam hparam] at hlit
    cases hlit
  · exact ⟨i, s, s', first, first', hpart, hfirst⟩

end MethodRoutes.Valid

namespace Router

variable {r : Router} {m : Method} {e e' : Route}

/-- The variant that answers leads or, if only the fallback table has it, is the older one. -/
theorem Reachable.leads_of_found? (hr : r.Reachable) (he' : e' ∈ (r.routesOf m).routes)
    (hvariant : e.pattern.Variant e'.pattern) (hne : e.number ≠ e'.number) {path : Text}
    {unescape : Bool} {params : Params}
    (hfound : (r.resolve m path unescape).found? = some (e, params)) :
    e.pattern.isWalkable = true ∧ Pattern.Leads (r.routesOf m).routes e.pattern e'.pattern ∨
      e.pattern.isWalkable = false ∧ e.number < e'.number := by
  have hvalid := hr.valid.routesOf m
  have hagrees := hvalid.agrees (Path.squeeze path) unescape
  rw [found?_resolve] at hfound
  obtain ⟨he, ⟨hwalks, -⟩ | ⟨hnot, hscans, -⟩⟩ := hagrees.answers hfound
  · obtain ⟨values, hlookup⟩ := hvalid.lookup_of_found? he hwalks hfound
    refine .inl ⟨hwalks.1, hvalid.leads_of_lookup hlookup hwalks he' hvariant ?_⟩
    intro htext
    rw [hr.eq_of_text he he' htext] at hne
    exact hne rfl
  · have hscans' : e'.Scans (Path.trimSlash (Path.squeeze path)) := by
      rw [Route.Scans, ← hvariant.isWalkable_eq, ← hvariant.regex_eq]
      exact hscans
    obtain ⟨_, -, -, hleast, _, -, hfound'⟩ := hagrees.unwalkable hnot ⟨e, he, hscans⟩
    cases hfound'.symm.trans hfound
    exact .inr ⟨hscans.1, Nat.lt_of_le_of_ne (hleast e' he' hscans') hne⟩

/-- Of two routes whose patterns differ in names only, the younger one never answers, unless a walk
can resolve them and the younger one leads. In that case the older one never answers. -/
theorem Reachable.variant_never_found (hr : r.Reachable) (he : e ∈ (r.routesOf m).routes)
    (he' : e' ∈ (r.routesOf m).routes) (hvariant : e.pattern.Variant e'.pattern)
    (hnumber : e.number < e'.number) (path : Text) (unescape : Bool) :
    (¬ (e.pattern.isWalkable = true ∧
        Pattern.Leads (r.routesOf m).routes e'.pattern e.pattern) →
      (r.resolve m path unescape).route? ≠ some e') ∧
    (e.pattern.isWalkable = true ∧ Pattern.Leads (r.routesOf m).routes e'.pattern e.pattern →
      (r.resolve m path unescape).route? ≠ some e) := by
  constructor
  · intro hleads hroute
    obtain ⟨⟨_, params⟩, hfound, rfl⟩ := Option.map_eq_some_iff.1 hroute
    rcases hr.leads_of_found? he hvariant.symm (Nat.ne_of_gt hnumber) hfound with h | ⟨-, hlt⟩
    · rw [← hvariant.isWalkable_eq] at h
      exact hleads h
    · exact Nat.lt_asymm hnumber hlt
  · rintro ⟨hwalkable, hleads⟩ hroute
    obtain ⟨⟨_, params⟩, hfound, rfl⟩ := Option.map_eq_some_iff.1 hroute
    rcases hr.leads_of_found? he' hvariant (Nat.ne_of_lt hnumber) hfound with
      ⟨-, h⟩ | ⟨hscanned, -⟩
    · exact hleads.asymm h
    · rw [hwalkable] at hscanned
      cases hscanned

/-- The older one of `/{a}` and `/{b}` goes first, if `/{a}/z` was there before both. -/
theorem Reachable.variant_never_found_prefix : ∃ (r : Router) (e e' : Route), Reachable r ∧
    e ∈ (r.routesOf .get).routes ∧ e' ∈ (r.routesOf .get).routes ∧
    e.pattern.Variant e'.pattern ∧ e.number < e'.number ∧
    ¬ (e.pattern.isWalkable = true ∧
      Pattern.Leads (r.routesOf .get).routes e'.pattern e.pattern) ∧
    ∀ path unescape, (r.resolve .get path unescape).route? ≠ some e' := by
  have hr : Reachable _ := .register (.register (.register .empty
    .get ['/', '{', 'a', '}', '/', 'z'] []) .get ['/', '{', 'a', '}'] [])
    .get ['/', '{', 'b', '}'] []
  have hnever := @variant_never_found _ .get ⟨⟨[[.param ['a'] .word]]⟩, [], 1⟩
    ⟨⟨[[.param ['b'] .word]]⟩, [], 2⟩ hr (List.mem_cons_of_mem _ List.mem_cons_self)
    (List.mem_cons_of_mem _ (List.mem_cons_of_mem _ List.mem_cons_self)) rfl (Nat.lt_succ_self 1)
  refine ⟨_, _, _, hr, List.mem_cons_of_mem _ List.mem_cons_self,
    List.mem_cons_of_mem _ (List.mem_cons_of_mem _ List.mem_cons_self), rfl, Nat.lt_succ_self 1,
    ?hnot, fun path unescape => (hnever path unescape).1 ?hnot⟩
  rintro ⟨-, hleads⟩
  exact hleads.asymm ⟨0, _, _, _, _, ⟨rfl, rfl, rfl, by decide⟩, rfl, rfl, Nat.zero_lt_two⟩

/-- The younger one answers, if `/{b}/z` was there before both. -/
theorem Reachable.variant_found_prefix : ∃ (r : Router) (e e' : Route), Reachable r ∧
    e ∈ (r.routesOf .get).routes ∧ e' ∈ (r.routesOf .get).routes ∧
    e.pattern.Variant e'.pattern ∧ e.number < e'.number ∧
    (r.resolve .get ['/', 'x'] false).route? = some e' := by
  have hr : Reachable _ := .register (.register (.register .empty
    .get ['/', '{', 'b', '}', '/', 'z'] []) .get ['/', '{', 'a', '}'] [])
    .get ['/', '{', 'b', '}'] []
  refine ⟨_, ⟨⟨[[.param ['a'] .word]]⟩, [], 1⟩, ⟨⟨[[.param ['b'] .word]]⟩, [], 2⟩, hr, ?_, ?_, rfl,
    Nat.lt_succ_self 1, rfl⟩
  · exact List.mem_cons_of_mem _ List.mem_cons_self
  · exact List.mem_cons_of_mem _ (List.mem_cons_of_mem _ List.mem_cons_self)

end Router

end HttpRouting
