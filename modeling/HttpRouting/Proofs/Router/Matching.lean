import HttpRouting.Proofs.Router.Resolution

/-!
# What is matched

Whether a path is matched, whether a walkable route answers, and whether the advice is to flip the
trailing slash: each depends on the set of the registered patterns alone (`PatternsIn`), not on the
trees, the tables or the order of registration. Only which of the routes that can answer does
(`Route.Answers`) is left to those.
-/

namespace HttpRouting

/-! ## Routes that can answer -/

/-- A walkable route matches the path, or another one matches it trimmed. -/
def Matched (routes : List Route) (path : Text) : Prop :=
  (∃ e ∈ routes, e.Walks path) ∨ ∃ e ∈ routes, e.Scans (Path.trimSlash path)

instance (routes : List Route) (path : Text) : Decidable (Matched routes path) :=
  inferInstanceAs (Decidable (_ ∨ _))

/-- A route can answer with these parameters: it is walked to or, where no route is, it takes the
trimmed path. -/
def Route.Answers (e : Route) (routes : List Route) (path : Text) (unescape : Bool)
    (params : Params) : Prop :=
  e ∈ routes ∧
    (e.Walks path ∧ e.capture? path unescape = some params ∨
      (¬ ∃ e' ∈ routes, e'.Walks path) ∧ e.Scans (Path.trimSlash path) ∧
        e.capture? (Path.trimSlash path) unescape = some params)

/-- The form in which a path is matched with the route: squeezed and, unless the route is walkable,
trimmed. -/
def Route.formOf (e : Route) (path : Text) : Text :=
  if e.pattern.isWalkable then Path.squeeze path else Path.trimSlash (Path.squeeze path)

namespace Route.Answers

variable {e : Route} {routes : List Route} {path : Text} {unescape : Bool} {params : Params}

theorem matched (h : e.Answers routes path unescape params) : Matched routes path := by
  obtain ⟨he, ⟨hwalks, -⟩ | ⟨-, hscans, -⟩⟩ := h
  · exact .inl ⟨e, he, hwalks⟩
  · exact .inr ⟨e, he, hscans⟩

/-- A route that is not walkable can answer only where none is walked to. -/
theorem isWalkable_iff (h : e.Answers routes path unescape params) :
    e.pattern.isWalkable = true ↔ ∃ e' ∈ routes, e'.Walks path := by
  obtain ⟨he, ⟨hwalks, -⟩ | ⟨hnot, hscans, -⟩⟩ := h
  · exact iff_of_true hwalks.1 ⟨e, he, hwalks⟩
  · exact iff_of_false (Bool.eq_false_iff.1 hscans.1) hnot

end Route.Answers

/-- Every pattern of the one routes is a pattern of the others. -/
def PatternsIn (routes routes' : List Route) : Prop :=
  ∀ e ∈ routes, ∃ e' ∈ routes', e'.pattern = e.pattern

namespace PatternsIn

variable {routes routes' : List Route} {path : Text}

theorem refl (routes : List Route) : PatternsIn routes routes := fun e he => ⟨e, he, rfl⟩

theorem of_subset (h : routes ⊆ routes') : PatternsIn routes routes' :=
  fun e he => ⟨e, h he, rfl⟩

theorem walks (h : PatternsIn routes routes') (hwalks : ∃ e ∈ routes, e.Walks path) :
    ∃ e ∈ routes', e.Walks path := by
  obtain ⟨e, he, hwalks⟩ := hwalks
  obtain ⟨e', he', hpattern⟩ := h e he
  refine ⟨e', he', ?_⟩
  rw [Route.Walks, hpattern]
  exact hwalks

theorem scans (h : PatternsIn routes routes') (hscans : ∃ e ∈ routes, e.Scans path) :
    ∃ e ∈ routes', e.Scans path := by
  obtain ⟨e, he, hscans⟩ := hscans
  obtain ⟨e', he', hpattern⟩ := h e he
  refine ⟨e', he', ?_⟩
  rw [Route.Scans, hpattern]
  exact hscans

theorem matched (h : PatternsIn routes routes') (hmatched : Matched routes path) :
    Matched routes' path :=
  hmatched.imp h.walks h.scans

/-- What can answer has its like among the others, which answers with the same parameters. -/
theorem answers (h : PatternsIn routes routes') (h' : PatternsIn routes' routes) {e : Route}
    {unescape : Bool} {params : Params} (he : e.Answers routes path unescape params) :
    ∃ e' : Route, e'.text = e.text ∧ e'.Answers routes' path unescape params := by
  obtain ⟨he, hanswers⟩ := he
  obtain ⟨e', he', hpattern⟩ := h e he
  refine ⟨e', congrArg Pattern.text hpattern, he', ?_⟩
  -- The patterns are the same, and with them all that is said of either route.
  simp only [Route.Walks, Route.Scans, Route.capture?, Route.paramsOf, Route.names,
    hpattern] at hanswers ⊢
  exact hanswers.imp_right fun hscans => ⟨mt h'.walks hscans.1, hscans.2⟩

end PatternsIn

/-! ## Resolutions -/

namespace Resolution

def isWalkable (x : Resolution) : Bool := x.route?.any (·.pattern.isWalkable)

namespace Agrees

variable {x : Resolution} {routes : List Route} {path : Text} {unescape : Bool}

/-- One of the routes that can answer does, if there are any. -/
theorem found?_cases (h : x.Agrees routes path unescape) :
    (∃ e params, e.Answers routes path unescape params ∧ x.found? = some (e, params)) ∨
      ¬ Matched routes path ∧ x.found? = none := by
  by_cases hwalks : ∃ e ∈ routes, e.Walks path
  · obtain ⟨e, he, hwalks, params, hcapture, hfound⟩ := h.walkable hwalks
    exact .inl ⟨e, params, ⟨he, .inl ⟨hwalks, hcapture⟩⟩, hfound⟩
  by_cases hscans : ∃ e ∈ routes, e.Scans (Path.trimSlash path)
  · obtain ⟨e, he, hscans, -, params, hcapture, hfound⟩ := h.unwalkable hwalks hscans
    exact .inl ⟨e, params, ⟨he, .inr ⟨hwalks, hscans, hcapture⟩⟩, hfound⟩
  · exact .inr ⟨not_or.2 ⟨hwalks, hscans⟩, (h.unmatched hwalks hscans).1⟩

theorem answers (h : x.Agrees routes path unescape) {e : Route} {params : Params}
    (hfound : x.found? = some (e, params)) : e.Answers routes path unescape params := by
  rcases h.found?_cases with ⟨e', params', he, hfound'⟩ | ⟨-, hnone⟩
  · cases hfound'.symm.trans hfound
    exact he
  · cases hnone.symm.trans hfound

theorem isMatch_iff (h : x.Agrees routes path unescape) :
    x.isMatch = true ↔ Matched routes path := by
  rw [isMatch]
  rcases h.found?_cases with ⟨e, params, he, hfound⟩ | ⟨hunmatched, hnone⟩
  · rw [hfound]
    exact iff_of_true rfl he.matched
  · rw [hnone]
    exact iff_of_false Bool.false_ne_true hunmatched

theorem isWalkable_iff (h : x.Agrees routes path unescape) :
    x.isWalkable = true ↔ ∃ e ∈ routes, e.Walks path := by
  rw [isWalkable, route?]
  rcases h.found?_cases with ⟨e, params, he, hfound⟩ | ⟨hunmatched, hnone⟩
  · rw [hfound]
    exact he.isWalkable_iff
  · rw [hnone]
    exact iff_of_false Bool.false_ne_true (not_or.1 hunmatched).1

theorem advisesSlash_iff (h : x.Agrees routes path unescape) :
    x.advisesSlash = true ↔
      ¬ Matched routes path ∧ ∃ e ∈ routes, e.Walks (Path.flipSlash path) := by
  by_cases hmatched : Matched routes path
  · rw [h.unadvised (h.isMatch_iff.2 hmatched)]
    exact iff_of_false Bool.false_ne_true fun hadvised => hadvised.1 hmatched
  · obtain ⟨hwalks, hscans⟩ := not_or.1 hmatched
    rw [(h.unmatched hwalks hscans).2.2, and_iff_right hmatched]

end Agrees

end Resolution

/-! ## Routers -/

theorem MethodRoutes.resolve_empty (path : Text) (unescape : Bool) :
    empty.resolve path unescape = .notMatched := by
  have hlookup : ∀ path, empty.tree.lookup path = none := by
    intro path
    rcases valid_empty.lookup_cases path with ⟨r, hr, -⟩ | ⟨-, hlookup⟩
    · cases hr
    · exact hlookup
  have hflipped : ¬ empty.resolvesFlipped path = true := by
    rw [resolvesFlipped, hlookup, Option.isSome_none, Bool.and_false]
    exact Bool.false_ne_true
  simp only [resolve, hlookup, if_neg hflipped, Fallback.find, valid_empty.routes_fallback]
  rfl

namespace Router

variable {r : Router} (m : Method) (path : Text) (unescape : Bool)

/-- A method without a place is resolved as one without routes. -/
theorem found?_resolve (r : Router) : (r.resolve m path unescape).found? =
    ((r.routesOf m).resolve (Path.squeeze path) unescape).found? := by
  unfold resolve routesOf
  cases r.routesOf? m with
  | some t => rfl
  | none => rw [Option.getD_none, MethodRoutes.resolve_empty]; rfl

theorem advisesSlash_resolve (r : Router) : (r.resolve m path unescape).advisesSlash =
    ((r.routesOf m).resolve (Path.squeeze path) unescape).advisesSlash := by
  unfold resolve routesOf
  cases r.routesOf? m with
  | some t => rfl
  | none => rw [Option.getD_none, MethodRoutes.resolve_empty]; rfl

namespace Valid

/-- What is found is a route of the method. -/
theorem mem_of_found? (hr : r.Valid) {e : Route} {params : Params}
    (h : (r.resolve m path unescape).found? = some (e, params)) : e ∈ (r.routesOf m).routes := by
  rw [found?_resolve] at h
  exact (((hr.routesOf m).agrees (Path.squeeze path) unescape).answers h).1

theorem capture?_of_found? (hr : r.Valid) {e : Route} {params : Params}
    (h : (r.resolve m path unescape).found? = some (e, params)) :
    e.capture? (e.formOf path) unescape = some params := by
  rw [found?_resolve] at h
  unfold Route.formOf
  obtain ⟨-, ⟨hwalks, hcapture⟩ | ⟨-, hscans, hcapture⟩⟩ :=
    ((hr.routesOf m).agrees (Path.squeeze path) unescape).answers h
  · rw [if_pos hwalks.1]
    exact hcapture
  · rw [if_neg (Bool.eq_false_iff.1 hscans.1)]
    exact hcapture

/-- Texts tell patterns. -/
theorem patternsIn (hr : r.Valid) {r' : Router} (hr' : r'.Valid)
    (h : ∀ e ∈ (r.routesOf m).routes, ∃ e' ∈ (r'.routesOf m).routes, e'.text = e.text) :
    PatternsIn (r.routesOf m).routes (r'.routesOf m).routes := by
  intro e he
  obtain ⟨e', he', htext⟩ := h e he
  refine ⟨e', he', ?_⟩
  have hparse := (hr.routesOf m).grown.parse_text he
  have hparse' := (hr'.routesOf m).grown.parse_text he'
  rw [htext, hparse] at hparse'
  exact (Except.ok.inj hparse').symm

theorem isMatch_iff (hr : r.Valid) : (r.resolve m path unescape).isMatch = true ↔
    Matched (r.routesOf m).routes (Path.squeeze path) := by
  rw [Resolution.isMatch, found?_resolve]
  exact ((hr.routesOf m).agrees (Path.squeeze path) unescape).isMatch_iff

/-- Routers with the same patterns match the same paths, decoded or not. -/
theorem isMatch_congr (hr : r.Valid) {r' : Router} (hr' : r'.Valid)
    (h : PatternsIn (r.routesOf m).routes (r'.routesOf m).routes)
    (h' : PatternsIn (r'.routesOf m).routes (r.routesOf m).routes) (unescape' : Bool) :
    (r.resolve m path unescape).isMatch = (r'.resolve m path unescape').isMatch := by
  rw [Bool.eq_iff_iff, hr.isMatch_iff, hr'.isMatch_iff]
  exact ⟨h.matched, h'.matched⟩

theorem isWalkable_iff (hr : r.Valid) : (r.resolve m path unescape).isWalkable = true ↔
    ∃ e ∈ (r.routesOf m).routes, e.Walks (Path.squeeze path) := by
  rw [Resolution.isWalkable, Resolution.route?, found?_resolve]
  exact ((hr.routesOf m).agrees (Path.squeeze path) unescape).isWalkable_iff

theorem advisesSlash_iff (hr : r.Valid) : (r.resolve m path unescape).advisesSlash = true ↔
    ¬ Matched (r.routesOf m).routes (Path.squeeze path) ∧
      ∃ e ∈ (r.routesOf m).routes, e.Walks (Path.flipSlash (Path.squeeze path)) := by
  rw [advisesSlash_resolve]
  exact ((hr.routesOf m).agrees (Path.squeeze path) unescape).advisesSlash_iff

theorem advisesSlash_congr (hr : r.Valid) {r' : Router} (hr' : r'.Valid)
    (h : PatternsIn (r.routesOf m).routes (r'.routesOf m).routes)
    (h' : PatternsIn (r'.routesOf m).routes (r.routesOf m).routes) :
    (r.resolve m path unescape).advisesSlash = (r'.resolve m path unescape).advisesSlash := by
  rw [Bool.eq_iff_iff, hr.advisesSlash_iff, hr'.advisesSlash_iff]
  exact and_congr (not_congr ⟨h.matched, h'.matched⟩) ⟨h.walks, h'.walks⟩

end Valid

end Router

end HttpRouting
