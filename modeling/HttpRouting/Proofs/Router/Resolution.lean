import HttpRouting.Proofs.Path
import HttpRouting.Proofs.Router.Registration
import HttpRouting.Proofs.Router.Walk
import HttpRouting.Router.Resolution

/-!
# Resolutions

A path is tried in three forms: as it was squeezed, with its trailing slash flipped, and with the
slash trimmed. Trimming does nothing or flips (`Path.trimSlash_cases`), so that a walkable route
that the fallback table could answer with has been found before, or by the advice. What is left is
an order in which the routes' own expressions are asked (`MethodRoutes.Valid.resolve_cases`).
-/

namespace HttpRouting

/-! ## Fallback tables -/

namespace Route

/-- The route is walkable, and its expression matches the path. -/
def Walks (r : Route) (path : Text) : Prop :=
  r.pattern.isWalkable = true ∧ r.pattern.regex.isMatch path = true

/-- The route is not walkable, but its expression matches the path. -/
def Scans (r : Route) (path : Text) : Prop :=
  r.pattern.isWalkable = false ∧ r.pattern.regex.isMatch path = true

instance (r : Route) (path : Text) : Decidable (r.Walks path) :=
  inferInstanceAs (Decidable (_ ∧ _))

instance (r : Route) (path : Text) : Decidable (r.Scans path) :=
  inferInstanceAs (Decidable (_ ∧ _))

/-- A key takes the paths that its route is walked to. -/
theorem walks_iff {r : Route} {path : Text} :
    r.Walks path ↔ (r.pattern.key.capture? path).isSome = true := by
  rw [Pattern.isSome_capture?_key, Bool.and_eq_true]
  exact .rfl

theorem isSome_capture? (r : Route) (path : Text) (unescape : Bool) :
    (r.capture? path unescape).isSome = r.pattern.regex.isMatch path := by
  rw [capture?, Option.isSome_map, Regex.isMatch]

theorem capture?_eq_none_iff {r : Route} {path : Text} {unescape : Bool} :
    r.capture? path unescape = none ↔ r.pattern.regex.isMatch path = false := by
  rw [← isSome_capture? r path unescape, Option.isSome_eq_false_iff, Option.isNone_iff_eq_none]

end Route

namespace Fallback

variable {path : Text} {unescape : Bool} {routes : List Route}

theorem firstMatch_eq_none_iff :
    firstMatch path unescape routes = none ↔
      ∀ r ∈ routes, r.pattern.regex.isMatch path = false := by
  simp only [firstMatch, List.findSome?_eq_none_iff, Option.map_eq_none_iff,
    Route.capture?_eq_none_iff]

/-- A table that is in the order of registration answers with the matching route of the lowest
number. -/
theorem firstMatch_eq_some (h : routes.Pairwise fun a b => a.number < b.number) {r : Route}
    {params : Params} (hfirst : firstMatch path unescape routes = some (r, params)) :
    r ∈ routes ∧ r.capture? path unescape = some params ∧
      ∀ r' ∈ routes, r'.pattern.regex.isMatch path = true → r.number ≤ r'.number := by
  obtain ⟨before, e, after, rfl, he, hbefore⟩ := List.findSome?_eq_some_iff.1 hfirst
  obtain ⟨params', hcapture, heq⟩ := Option.map_eq_some_iff.1 he
  cases heq
  refine ⟨List.mem_append_right _ List.mem_cons_self, hcapture, fun r' hr' hmatch => ?_⟩
  rcases List.mem_append.1 hr' with hr' | hr'
  · have hnone := Route.capture?_eq_none_iff.1 (Option.map_eq_none_iff.1 (hbefore r' hr'))
    rw [hmatch] at hnone
    cases hnone
  · rcases List.mem_cons.1 hr' with rfl | hr'
    · exact Nat.le_refl _
    · have hordered := (List.pairwise_append.1 h).2.1
      exact Nat.le_of_lt ((List.pairwise_cons.1 hordered).1 r' hr')

/-- Routes that do not match make no difference. -/
theorem firstMatch_filter {p : Route → Bool}
    (h : ∀ r ∈ routes, p r = false → r.pattern.regex.isMatch path = false) :
    firstMatch path unescape (routes.filter p) = firstMatch path unescape routes := by
  induction routes with
  | nil => rfl
  | cons r routes ih =>
    have ih := ih fun r' hr' => h r' (List.mem_cons_of_mem _ hr')
    unfold firstMatch at ih ⊢
    cases hp : p r with
    | true => rw [List.filter_cons_of_pos hp, List.findSome?_cons, List.findSome?_cons, ih]
    | false =>
      have hnone : r.capture? path unescape = none :=
        Route.capture?_eq_none_iff.2 (h r List.mem_cons_self hp)
      rw [List.filter_cons_of_neg (Bool.eq_false_iff.1 hp), ih, List.findSome?_cons, hnone]
      rfl

end Fallback

/-! ## The routes of one method -/

namespace MethodRoutes

variable {t : MethodRoutes} {path : Text}

/-- The routes that only the fallback table can answer with. -/
def unwalkable (t : MethodRoutes) : List Route := t.routes.filter fun r => !r.pattern.isWalkable

theorem mem_unwalkable {r : Route} :
    r ∈ t.unwalkable ↔ r ∈ t.routes ∧ r.pattern.isWalkable = false := by
  rw [unwalkable, List.mem_filter, Bool.not_eq_true']

theorem scans_of_mem {r : Route} (hr : r ∈ t.unwalkable)
    (hmatch : r.pattern.regex.isMatch path = true) : r ∈ t.routes ∧ r.Scans path :=
  ⟨(mem_unwalkable.1 hr).1, (mem_unwalkable.1 hr).2, hmatch⟩

namespace Valid

theorem lookup_cases (ht : t.Valid) (path : Text) :
    (∃ r ∈ t.routes, ∃ captured, r.pattern.key.capture? path = some captured ∧
      t.tree.lookup path = some (r, captured)) ∨
    (¬ ∃ r ∈ t.routes, r.Walks path) ∧ t.tree.lookup path = none := by
  rcases ht.grown.walk_cases path [] with ⟨r, hr, captured, hcapture, hwalk⟩ | ⟨hstuck, hwalk⟩
  · exact .inl ⟨r, hr, captured, hcapture, by rw [Tree.lookup, hwalk]; rfl⟩
  · refine .inr ⟨?_, by rw [Tree.lookup, hwalk]; rfl⟩
    rintro ⟨r, hr, hwalks⟩
    rw [Route.walks_iff, hstuck r hr] at hwalks
    cases hwalks

theorem lookup_isSome_iff (ht : t.Valid) (path : Text) :
    (t.tree.lookup path).isSome = true ↔ ∃ r ∈ t.routes, r.Walks path := by
  rcases ht.lookup_cases path with ⟨r, hr, captured, hcapture, hlookup⟩ | ⟨hnot, hlookup⟩
  · rw [hlookup]
    exact iff_of_true rfl ⟨r, hr, Route.walks_iff.2 (Option.isSome_of_eq_some hcapture)⟩
  · rw [hlookup]
    exact iff_of_false Bool.false_ne_true hnot

/-- For a path that nothing is walked to, it makes no difference that the root is exempt. -/
theorem resolvesFlipped_iff (ht : t.Valid) (hnot : ¬ ∃ r ∈ t.routes, r.Walks path) :
    t.resolvesFlipped path = true ↔ ∃ r ∈ t.routes, r.Walks (Path.flipSlash path) := by
  rw [resolvesFlipped, Bool.and_eq_true, decide_eq_true_eq, ht.lookup_isSome_iff,
    and_iff_right_iff_imp]
  rintro hflip rfl
  exact hnot hflip

/-- A walkable route that the table could answer with for the trimmed path is walked to from the
path or from the flipped one. -/
theorem not_isMatch_trimSlash (ht : t.Valid) (hnot : ¬ ∃ r ∈ t.routes, r.Walks path)
    (hflipped : ¬ t.resolvesFlipped path = true) :
    ∀ r ∈ t.routes, (!r.pattern.isWalkable) = false →
      r.pattern.regex.isMatch (Path.trimSlash path) = false := by
  intro r hr hp
  rw [Bool.not_eq_false'] at hp
  rw [ht.resolvesFlipped_iff hnot] at hflipped
  rw [Bool.eq_false_iff]
  intro hmatch
  rcases Path.trimSlash_cases path with h | h
  · rw [h] at hmatch
    exact hnot ⟨r, hr, hp, hmatch⟩
  · rw [h] at hmatch
    exact hflipped ⟨r, hr, hp, hmatch⟩

/-- The three ways to resolve a path, each with what excludes those before. Whether the flipped path
is walked or not, the table answers as if it had the unwalkable routes only. -/
theorem resolve_cases (ht : t.Valid) (path : Text) (unescape : Bool) :
    (∃ r ∈ t.routes, ∃ captured, r.pattern.key.capture? path = some captured ∧
      t.resolve path unescape = .walked r (r.paramsOf captured)) ∨
    (¬ ∃ r ∈ t.routes, r.Walks path) ∧
      ((∃ r params,
        Fallback.firstMatch (Path.trimSlash path) unescape t.unwalkable = some (r, params) ∧
          t.resolve path unescape = .scanned r params) ∨
      Fallback.firstMatch (Path.trimSlash path) unescape t.unwalkable = none ∧
        t.resolve path unescape =
          if t.resolvesFlipped path then .slashAdvised else .notMatched) := by
  rcases ht.lookup_cases path with ⟨r, hr, captured, hcapture, hlookup⟩ | ⟨hnot, hlookup⟩
  · refine .inl ⟨r, hr, captured, hcapture, ?_⟩
    rw [resolve, hlookup]
  refine .inr ⟨hnot, ?_⟩
  rw [resolve, hlookup]
  by_cases hflipped : t.resolvesFlipped path = true
  · have hfind : t.fallback.findUnwalkable (Path.trimSlash path) unescape =
        Fallback.firstMatch (Path.trimSlash path) unescape t.unwalkable := by
      rw [Fallback.findUnwalkable, ht.routes_fallback, unwalkable]
    simp only [if_pos hflipped, hfind]
    cases Fallback.firstMatch (Path.trimSlash path) unescape t.unwalkable with
    | some e => exact .inl ⟨e.1, e.2, rfl, rfl⟩
    | none => exact .inr ⟨rfl, rfl⟩
  · have hfind : t.fallback.find (Path.trimSlash path) unescape =
        Fallback.firstMatch (Path.trimSlash path) unescape t.unwalkable := by
      rw [Fallback.find, ht.routes_fallback, unwalkable,
        Fallback.firstMatch_filter (ht.not_isMatch_trimSlash hnot hflipped)]
    simp only [if_neg hflipped, hfind]
    cases Fallback.firstMatch (Path.trimSlash path) unescape t.unwalkable with
    | some e => exact .inl ⟨e.1, e.2, rfl, rfl⟩
    | none => exact .inr ⟨rfl, rfl⟩

end Valid

end MethodRoutes

/-! ## Routers -/

/-- What the expressions of the routes of a method alone tell about a squeezed path. -/
structure Resolution.Agrees (x : Resolution) (routes : List Route) (path : Text) (unescape : Bool) :
    Prop where
  /-- A walkable route that matches goes first. -/
  walkable : (∃ r ∈ routes, r.Walks path) →
    ∃ r ∈ routes, r.Walks path ∧
      ∃ params, r.capture? path unescape = some params ∧ x.found? = some (r, params)
  /-- The earliest of the other routes that match the trimmed path comes next. -/
  unwalkable : (¬ ∃ r ∈ routes, r.Walks path) → (∃ r ∈ routes, r.Scans (Path.trimSlash path)) →
    ∃ r ∈ routes, r.Scans (Path.trimSlash path) ∧
      (∀ r' ∈ routes, r'.Scans (Path.trimSlash path) → r.number ≤ r'.number) ∧
      ∃ params, r.capture? (Path.trimSlash path) unescape = some params ∧
        x.found? = some (r, params)
  /-- Otherwise nothing is found; the advice is that a walkable route matches the flipped path. -/
  unmatched : (¬ ∃ r ∈ routes, r.Walks path) → (¬ ∃ r ∈ routes, r.Scans (Path.trimSlash path)) →
    x.found? = none ∧ x.params = [] ∧
      (x.advisesSlash = true ↔ ∃ r ∈ routes, r.Walks (Path.flipSlash path))
  /-- What is found needs no advice. -/
  unadvised : x.isMatch = true → x.advisesSlash = false
  /-- The fallback table never answers with a route that is walkable. -/
  scanned : ∀ r params, x = .scanned r params → r.pattern.isWalkable = false

theorem Resolution.Agrees.of_missed {x : Resolution} {routes : List Route} {path : Text}
    {unescape : Bool} (hx : x.found? = none) (hnot : ¬ ∃ r ∈ routes, r.Walks path)
    (hscans : ¬ ∃ r ∈ routes, r.Scans (Path.trimSlash path))
    (hadvice : x.advisesSlash = true ↔ ∃ r ∈ routes, r.Walks (Path.flipSlash path)) :
    x.Agrees routes path unescape where
  walkable := fun h => absurd h hnot
  unwalkable := fun _ h => absurd h hscans
  unmatched := fun _ _ => ⟨hx, by rw [Resolution.params, hx]; rfl, hadvice⟩
  unadvised := fun h => by
    rw [Resolution.isMatch, hx] at h
    cases h
  scanned := fun r params h => by
    rw [h] at hx
    cases hx

namespace MethodRoutes.Valid

variable {t : MethodRoutes}

theorem agrees (ht : t.Valid) (path : Text) (unescape : Bool) :
    (t.resolve path unescape).Agrees t.routes path unescape := by
  have hordered : t.unwalkable.Pairwise fun a b => a.number < b.number := ht.ordered.filter _
  rcases ht.resolve_cases path unescape with
    ⟨r, hr, captured, hcapture, hx⟩ | ⟨hnot, ⟨r, params, hfirst, hx⟩ | ⟨hfirst, hx⟩⟩
  · have hwalks : r.Walks path := Route.walks_iff.2 (Option.isSome_of_eq_some hcapture)
    have hnot := not_not_intro (⟨r, hr, hwalks⟩ : ∃ r ∈ t.routes, r.Walks path)
    rw [hx]
    exact {
      walkable := fun _ => ⟨r, hr, hwalks, _, Route.capture?_of_key hcapture unescape, rfl⟩
      unwalkable := fun h => absurd h hnot
      unmatched := fun h => absurd h hnot
      unadvised := fun _ => rfl
      scanned := nofun }
  · obtain ⟨hr, hcapture, hleast⟩ := Fallback.firstMatch_eq_some hordered hfirst
    have hmatch := Option.isSome_of_eq_some hcapture
    rw [Route.isSome_capture?] at hmatch
    obtain ⟨hr, hscans⟩ := scans_of_mem hr hmatch
    rw [hx]
    refine {
      walkable := fun h => absurd h hnot
      unwalkable := fun _ _ => ⟨r, hr, hscans, fun r' hr' h => ?_, params, hcapture, rfl⟩
      unmatched := fun _ h => absurd ⟨r, hr, hscans⟩ h
      unadvised := fun _ => rfl
      scanned := fun r' params' h => ?_ }
    · exact hleast r' (mem_unwalkable.2 ⟨hr', h.1⟩) h.2
    · cases h
      exact hscans.1
  · have hscans : ¬ ∃ r ∈ t.routes, r.Scans (Path.trimSlash path) := by
      rintro ⟨r, hr, hp, hmatch⟩
      have := Fallback.firstMatch_eq_none_iff.1 hfirst r (mem_unwalkable.2 ⟨hr, hp⟩)
      rw [hmatch] at this
      cases this
    have hadvice := ht.resolvesFlipped_iff hnot
    rw [hx]
    cases hflipped : t.resolvesFlipped path with
    | true =>
      rw [hflipped] at hadvice
      exact .of_missed rfl hnot hscans hadvice
    | false =>
      rw [hflipped] at hadvice
      exact .of_missed rfl hnot hscans hadvice

end MethodRoutes.Valid

namespace Router

/-- Every path is resolved as the expressions of the registered routes tell, the path squeezed
first: the tree, the fallback table and the advice are one matcher. -/
theorem Reachable.resolve_agrees {r : Router} (hr : r.Reachable) (m : Method) (path : Text)
    (unescape : Bool) :
    (r.resolve m path unescape).Agrees (r.routesOf m).routes (Path.squeeze path) unescape := by
  unfold resolve routesOf
  cases h : r.routesOf? m with
  | some t => exact (hr.valid.valid m t h).agrees (Path.squeeze path) unescape
  | none =>
    have hnone : ∀ {p : Route → Prop}, ¬ ∃ e ∈ MethodRoutes.empty.routes, p e := by
      rintro p ⟨e, he, -⟩
      cases he
    exact .of_missed rfl hnone hnone (iff_of_false Bool.false_ne_true hnone)

/-- Under `/a/` and `/*b` the path `//a` is left to the catch-all. -/
theorem Reachable.resolve_agrees_rest : ∃ r, Reachable r ∧
    ∃ e params, (r.resolve .get ['/', '/', 'a'] false).found? = some (e, params) ∧
      e.Scans ['/', 'a'] ∧ e.capture? ['/', 'a'] false = some params := by
  have hr : Reachable _ :=
    .register (.register .empty .get ['/', 'a', '/'] []) .get ['/', '*', 'b'] []
  obtain ⟨e, -, hscans, -, params, hcapture, hfound⟩ :=
    (hr.resolve_agrees .get ['/', '/', 'a'] false).unwalkable (by decide) (by decide)
  exact ⟨_, hr, e, params, hfound, hscans, hcapture⟩

end Router

end HttpRouting
