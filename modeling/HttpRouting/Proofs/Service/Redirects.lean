import HttpRouting.Proofs.Router.Matching
import HttpRouting.Proofs.Service.Reachable

/-!
# Redirects

A redirect leads to a path that a walkable route takes (`Service.Reachable.redirect_sound`): the
location is squeezed, so that the router sees the same path that the advice was about, and the path
of a walkable route starts with a slash.
-/

namespace HttpRouting

/-- What a pattern matches starts with a slash. -/
theorem Pattern.head?_of_isMatch {text path : Text} {p : Pattern} (hparse : parse text = .ok p)
    (hmatch : p.regex.isMatch path = true) : path.head? = some '/' := by
  obtain ⟨rest, htext, -⟩ := parse_cases hparse
  cases hsegments : p.segments with
  | nil =>
    have hnil := text_parse hparse
    rw [Pattern.text, hsegments, htext] at hnil
    cases hnil
  | cons s segments =>
    rw [Pattern.regex, hsegments, List.flatMap_cons, Regex.ofSegment, List.cons_append,
      Regex.isMatch, Regex.capture?] at hmatch
    cases hdrop : Text.dropStart? (· == ·) ['/'] path with
    | none =>
      rw [hdrop] at hmatch
      cases hmatch
    | some after =>
      rw [Text.dropStart?_beq_eq_some_iff.1 hdrop]
      rfl

namespace Router.Valid

variable {r : Router} {m : Method} {path : Text} {unescape : Bool}

/-- The advice to flip the trailing slash leads to a path that a walkable route takes. -/
theorem exists_walkable_of_advised (hr : r.Valid)
    (hadvised : (r.resolve m path unescape).advisesSlash = true) (unescape' : Bool) :
    ∃ e ∈ (r.routesOf m).routes, e.Walks (Path.flipSlash (Path.squeeze path)) ∧ ∃ params,
      (r.resolve m (Path.flipSlash (Path.squeeze path)) unescape').found? = some (e, params) := by
  obtain ⟨-, hwalks⟩ := (hr.advisesSlash_iff m path unescape).1 hadvised
  have hagrees := (hr.routesOf m).agrees (Path.flipSlash (Path.squeeze path)) unescape'
  obtain ⟨e, he, hwalks, params, -, hfound⟩ := hagrees.walkable hwalks
  refine ⟨e, he, hwalks, params, ?_⟩
  rw [found?_resolve, (Path.squeezed_squeeze path).flipSlash.squeeze_eq]
  exact hfound

end Router.Valid

namespace Service

variable {s : Service}

/-- A request is redirected only if no route of its method matches, to another path, which starts
with a single slash and has no two in a row; there a walkable route of the method handles it. The
advice of a router always leads to a match. -/
theorem Reachable.redirect_sound (hs : s.Reachable) (m : Method) (path : Text) (id : RequestId) :
    (∀ location status, (s.respond m path id).outcome = .redirect location status →
      ¬ Matched (s.router.current.routesOf m).routes (Path.squeeze path) ∧
      (s.resolve m path).isMatch = false ∧
      location.head? = some '/' ∧ ¬ ['/', '/'] <:+: location ∧ location ≠ Path.squeeze path ∧
      ∀ s', s' = s ∨ s' = (s.respond m path id).service → ∀ id',
        ∃ e ∈ (s.router.current.routesOf m).routes, ∃ params, e.pattern.isWalkable = true ∧
          (s'.respond m location id').outcome =
            .handled (.guarded (.new id' m location (some e.text) params) e.handlers)) ∧
    ∀ r : Router, r.Reachable → ∀ unescape unescape',
      (r.resolve m path unescape).advisesSlash = true →
      (r.resolve m (Path.flipSlash (Path.squeeze path)) unescape').isMatch = true := by
  constructor
  · intro location status hredirect
    obtain ⟨⟨hadvised, -, -⟩, rfl, -⟩ := redirects_iff.1 hredirect
    have hvalid := hs.current.valid
    obtain ⟨hunmatched, -⟩ := (hvalid.advisesSlash_iff m path _).1 hadvised
    obtain ⟨e, he, hwalks, params, hfound⟩ :=
      hvalid.exists_walkable_of_advised hadvised s.settings.unescape
    have hparse := (hvalid.routesOf m).grown.parse_text he
    refine ⟨hunmatched, ?_, Pattern.head?_of_isMatch hparse hwalks.2,
      (Path.squeezed_squeeze path).flipSlash.2, ?_, ?_⟩
    · rw [Resolution.isMatch, Resolution.found?_of_advisesSlash hadvised]
      rfl
    · -- A path that flips to itself would have been walked to.
      intro heq
      rw [heq] at hwalks
      exact hunmatched (.inl ⟨e, he, hwalks⟩)
    · intro s' hs' id'
      have hresolve : s'.resolve = s.resolve := by
        rcases hs' with rfl | rfl
        · rfl
        · exact resolve_respond s m path id
      have hfound' :
          (s'.resolve m (Path.flipSlash (Path.squeeze path))).found? = some (e, params) := by
        rw [hresolve]
        exact hfound
      exact ⟨e, he, params, hwalks.1, outcome_of_found hfound' id'⟩
  · intro r hr unescape unescape' hadvised
    obtain ⟨e, -, -, params, hfound⟩ := hr.valid.exists_walkable_of_advised hadvised unescape'
    rw [Resolution.isMatch, hfound]
    rfl

/-- With `/a/` alone the request for `//a` is redirected to `/a/`, and handled there. -/
theorem Reachable.redirect_sound_once : ∃ s, Reachable s ∧
    (s.respond .get ['/', '/', 'a'] ⟨0⟩).outcome = .redirect ['/', 'a', '/'] 301 ∧
    ∃ run, (s.respond .get ['/', 'a', '/'] ⟨1⟩).outcome = .handled run := by
  have hr : Router.Reachable _ := .register .empty .get ['/', 'a', '/'] []
  have hs : Reachable _ := .ofRouter hr {}
  have hadvised : (Service.resolve _ .get ['/', '/', 'a']).advisesSlash = true :=
    (hs.current.valid.advisesSlash_iff ..).2 (by decide)
  have hredirect : (Service.respond _ .get ['/', '/', 'a'] ⟨0⟩).outcome =
      .redirect ['/', 'a', '/'] 301 :=
    redirects_iff.2 ⟨⟨hadvised, rfl, by decide⟩, rfl, rfl⟩
  obtain ⟨-, -, -, -, -, hhandled⟩ :=
    (hs.redirect_sound .get ['/', '/', 'a'] ⟨0⟩).1 _ _ hredirect
  obtain ⟨e, -, params, -, houtcome⟩ := hhandled _ (.inl rfl) ⟨1⟩
  exact ⟨_, hs, hredirect, _, houtcome⟩

end Service

end HttpRouting
