import HttpRouting.Proofs.Router.Matching

/-!
# Routers that grow

What one more route does to the requests that were answered before (`Reachable.register_monotone`).
No match is lost, and no advice is withdrawn but for a match. A route that is not walkable comes
last in every respect, so that what was matched is answered as before.
-/

namespace HttpRouting

/-- Routes behind the one that answers make no difference. -/
theorem Fallback.firstMatch_append {path : Text} {unescape : Bool} {routes : List Route}
    {found : Route × Params} (h : firstMatch path unescape routes = some found)
    (more : List Route) : firstMatch path unescape (routes ++ more) = some found := by
  unfold firstMatch at h ⊢
  rw [List.findSome?_append, h, Option.some_or]

namespace MethodRoutes

variable {t t' : MethodRoutes} {path : Text} {unescape : Bool}

/-- If every walk goes as before and the table only gains routes behind its own, a match is the
same as before. -/
theorem resolve_of_append (hlookup : ∀ path, t'.tree.lookup path = t.tree.lookup path)
    (more : List Route) (hroutes : t'.fallback.routes = t.fallback.routes ++ more)
    (hmatch : (t.resolve path unescape).isMatch = true) :
    t'.resolve path unescape = t.resolve path unescape := by
  have hflipped : t'.resolvesFlipped path = t.resolvesFlipped path := by
    rw [resolvesFlipped, resolvesFlipped, hlookup]
  -- What is left to look at are the scans, in which the new routes come last.
  unfold resolve at hmatch ⊢
  rw [hlookup, hflipped]
  cases hwalk : t.tree.lookup path with
  | some found => rfl
  | none =>
    simp only [hwalk, Fallback.findUnwalkable, Fallback.find] at hmatch
    simp only [Fallback.findUnwalkable, Fallback.find, hroutes, List.filter_append]
    split at hmatch
    · next h =>
      rw [if_pos h, if_pos h]
      split at hmatch
      · next hfirst => rw [Fallback.firstMatch_append hfirst]
      · cases hmatch
    · next h =>
      rw [if_neg h, if_neg h]
      split at hmatch
      · next hfirst => rw [Fallback.firstMatch_append hfirst]
      · cases hmatch

variable {e : Route} {text : Text}

theorem Valid.resolve_insert (ht : t.Valid) (hparse : Pattern.parse text = .ok e.pattern)
    (hfree : t.holds e.pattern = false) (hnumber : ∀ e' ∈ t.routes, e'.number < e.number)
    (hp : e.pattern.isWalkable = false) (hmatch : (t.resolve path unescape).isMatch = true) :
    (t.insert e).1.resolve path unescape = t.resolve path unescape := by
  have ht' := ht.insert hparse hfree hnumber
  rw [ht.insert_of_free hparse hfree] at ht' ⊢
  refine resolve_of_append ?_ [e] ?_ hmatch
  · intro path
    exact Tree.lookup_insert ht.grown.wf (Pattern.regular_key hparse)
      (ht.insert_eq_none hparse hfree) (Pattern.capture?_key_of_not_walkable hp path)
  · rw [ht'.routes_fallback, ht.routes_fallback]

end MethodRoutes

namespace Router

variable {r : Router} {m : Method} {text : Text} {handlers : List Handler}

/-- A route that is not walkable takes no request from another. -/
theorem Valid.resolve_extend (hr : r.Valid) {p : Pattern} (hparse : Pattern.parse text = .ok p)
    (hfree : (r.routesOf m).holds p = false) (handlers : List Handler) (hp : p.isWalkable = false)
    {path : Text} {unescape : Bool} (hmatch : (r.resolve m path unescape).isMatch = true) :
    (r.extend m ⟨p, handlers, r.count⟩).resolve m path unescape = r.resolve m path unescape := by
  unfold resolve at hmatch ⊢
  rw [routesOf?_extend, if_pos rfl]
  cases hm : r.routesOf? m with
  | none =>
    rw [hm] at hmatch
    cases hmatch
  | some t =>
    have ht : r.routesOf m = t := by rw [Router.routesOf, hm, Option.getD_some]
    rw [hm] at hmatch
    rw [ht] at hfree ⊢
    exact (hr.valid m t hm).resolve_insert hparse hfree (hr.numbered m t hm) hp hmatch

/-- A registration that is accepted keeps every match; it keeps the advice to flip the trailing
slash, or puts a match in its place; what was matched is answered by the same route with the same
parameters, unless the new route is walkable; and requests of other methods are answered as
before. -/
theorem Reachable.register_monotone (hr : r.Reachable)
    (haccepted : (r.register m text handlers).refusal? = none) (m' : Method) (path : Text)
    (unescape : Bool) :
    let before := r.resolve m' path unescape
    let after := (r.register m text handlers).state.resolve m' path unescape
    (before.isMatch = true → after.isMatch = true) ∧
    (before.advisesSlash = true → after.isMatch = true ∨ after.advisesSlash = true) ∧
    (∃ p, Pattern.parse text = .ok p ∧
      (p.isWalkable = false → before.isMatch = true → after = before)) ∧
    (m' ≠ m → after = before) := by
  intro before after
  obtain ⟨p, hparse, hfree, hstate⟩ := hr.valid.register_accepted haccepted
  have hvalid := hr.valid.extend hparse hfree handlers
  have hafter : after = (r.extend m ⟨p, handlers, r.count⟩).resolve m' path unescape := by
    rw [← hstate]
  have hin : PatternsIn (r.routesOf m').routes
      ((r.extend m ⟨p, handlers, r.count⟩).routesOf m').routes := by
    rw [hr.valid.routes_extend hparse hfree]
    exact .of_subset (List.subset_append_left _ _)
  have hother : m' ≠ m → after = before := by
    intro hm
    simp only [hafter, before, resolve, routesOf?_extend, if_neg hm]
  refine ⟨?_, ?_, ⟨p, hparse, ?_⟩, hother⟩
  · intro hmatch
    rw [hafter, hvalid.isMatch_iff]
    exact hin.matched ((hr.valid.isMatch_iff m' path unescape).1 hmatch)
  · intro hadvised
    obtain ⟨-, hwalks⟩ := (hr.valid.advisesSlash_iff m' path unescape).1 hadvised
    rw [hafter, hvalid.isMatch_iff, hvalid.advisesSlash_iff]
    by_cases hmatched : Matched ((r.extend m ⟨p, handlers, r.count⟩).routesOf m').routes
        (Path.squeeze path)
    · exact .inl hmatched
    · exact .inr ⟨hmatched, hin.walks hwalks⟩
  · intro hp hmatch
    by_cases hm : m' = m
    · subst hm
      rw [hafter]
      exact hr.valid.resolve_extend hparse hfree handlers hp hmatch
    · exact hother hm

/-- Under `/a/{b}` the path `/a/x` keeps its route when `/*c` is registered. -/
theorem Reachable.register_monotone_rest : ∃ r, Reachable r ∧
    (r.register .get ['/', '*', 'c'] []).refusal? = none ∧
    (r.resolve .get ['/', 'a', '/', 'x'] false).isMatch = true ∧
    (r.register .get ['/', '*', 'c'] []).state.resolve .get ['/', 'a', '/', 'x'] false =
      r.resolve .get ['/', 'a', '/', 'x'] false := by
  have hr : Reachable _ := .register .empty .get ['/', 'a', '/', '{', 'b', '}'] []
  have hmatch : (Router.resolve _ .get ['/', 'a', '/', 'x'] false).isMatch = true :=
    (hr.valid.isMatch_iff ..).2 (by decide)
  obtain ⟨-, -, ⟨p, hparse, hsame⟩, -⟩ :=
    hr.register_monotone (show (Router.register _ .get ['/', '*', 'c'] []).refusal? = none from rfl)
      .get ['/', 'a', '/', 'x'] false
  refine ⟨_, hr, rfl, hmatch, hsame ?_ hmatch⟩
  cases hparse
  rfl

end Router

end HttpRouting
