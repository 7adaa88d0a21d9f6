import HttpRouting.Proofs.Pattern.Samples
import HttpRouting.Proofs.Router.Matching

/-!
# Routes that are reached

Whether a route that stands alone answers any path. The walk takes paths as they are, but the
fallback table is asked with the trailing slash trimmed. A route that only the table can answer with
is therefore out of reach if its pattern ends with a slash that trimming would take
(`Router.register_reached_iff`), although it is registered like any other.
-/

namespace HttpRouting

/-- A route that stands alone answers what it takes, walked to or scanned. -/
theorem Resolution.Agrees.found?_singleton {x : Resolution} {e : Route} {path : Text}
    {unescape : Bool} (h : x.Agrees [e] path unescape) :
    (∃ params, x.found? = some (e, params)) ↔ e.Walks path ∨ e.Scans (Path.trimSlash path) := by
  have hmatched : Matched [e] path ↔ e.Walks path ∨ e.Scans (Path.trimSlash path) := by
    simp [Matched]
  rw [← hmatched]
  rcases h.found?_cases with ⟨e', params, he, hfound⟩ | ⟨hunmatched, hnone⟩
  · obtain rfl := List.mem_singleton.1 he.1
    exact iff_of_true ⟨params, hfound⟩ he.matched
  · refine iff_of_false ?_ hunmatched
    rintro ⟨params, hfound⟩
    cases hnone.symm.trans hfound

/-- Some path leads to a pattern that was read, exactly if a walk can resolve it or its text has no
trailing slash that is trimmed. -/
theorem Route.exists_path_iff {e : Route} (hp : e.pattern.Formed) :
    (∃ path, e.Walks (Path.squeeze path) ∨ e.Scans (Path.trimSlash (Path.squeeze path))) ↔
      e.pattern.isWalkable = true ∨ Path.trimSlash e.text = e.text := by
  have hsample : e.pattern.regex.isMatch e.pattern.sample = true :=
    Pattern.isMatch_regex.2 e.pattern.spells_sample
  have hsqueeze := hp.squeezed_sample.squeeze_eq
  constructor
  · rintro ⟨path, hwalks | hscans⟩
    · exact .inl hwalks.1
    · refine .inr (Decidable.byContradiction fun htrimmed => ?_)
      exact hp.not_spells_trimSlash htrimmed (Path.squeezed_squeeze path)
        (Pattern.isMatch_regex.1 hscans.2)
  · intro h
    refine ⟨e.pattern.sample, ?_⟩
    rw [hsqueeze]
    cases hwalkable : e.pattern.isWalkable with
    | true => exact .inl ⟨hwalkable, hsample⟩
    | false =>
      rw [hwalkable] at h
      have hkept := hp.trimSlash_sample_iff.2 (h.resolve_left Bool.false_ne_true)
      exact .inr ⟨hwalkable, by rw [hkept]; exact hsample⟩

namespace Router

/-- What an empty router becomes by a registration that it accepts. -/
theorem register_empty_accepted (m : Method) (text : Text) (handlers : List Handler)
    (haccepted : (empty.register m text handlers).refusal? = none) :
    ∃ p, Pattern.parse text = .ok p ∧
      ((empty.register m text handlers).state.routesOf m).routes = [⟨p, handlers, 0⟩] := by
  obtain ⟨p, hparse, hfree, hstate⟩ := valid_empty.register_accepted haccepted
  refine ⟨p, hparse, ?_⟩
  rw [hstate, valid_empty.routes_extend hparse hfree, if_pos rfl]
  rfl

/-- A route that an empty router accepts answers some path, exactly if a walk can resolve its
pattern or no trailing slash of the pattern is trimmed. -/
theorem register_reached_iff (m : Method) (text : Text) (handlers : List Handler) (unescape : Bool)
    (haccepted : (empty.register m text handlers).refusal? = none) :
    ∃ p, Pattern.parse text = .ok p ∧
      ((∃ path params, ((empty.register m text handlers).state.resolve m path unescape).found? =
          some (⟨p, handlers, 0⟩, params)) ↔
        p.isWalkable = true ∨ Path.trimSlash text = text) := by
  obtain ⟨p, hparse, hroutes⟩ := register_empty_accepted m text handlers haccepted
  have hr : Reachable _ := .register .empty m text handlers
  have hfound : ∀ path,
      (∃ params, ((empty.register m text handlers).state.resolve m path unescape).found? =
        some (⟨p, handlers, 0⟩, params)) ↔
      Route.Walks ⟨p, handlers, 0⟩ (Path.squeeze path) ∨
        Route.Scans ⟨p, handlers, 0⟩ (Path.trimSlash (Path.squeeze path)) := by
    intro path
    have hagrees := (hr.valid.routesOf m).agrees (Path.squeeze path) unescape
    rw [hroutes] at hagrees
    rw [found?_resolve]
    exact hagrees.found?_singleton
  refine ⟨p, hparse, ?_⟩
  rw [exists_congr hfound, Route.exists_path_iff (Pattern.formed_parse hparse), Route.text,
    Pattern.text_parse hparse]

/-- A file name keeps its slash, so that `/a.{b}/` is reached. -/
theorem register_reached_fileName :
    (empty.register .get ['/', 'a', '.', '{', 'b', '}', '/'] []).refusal? = none ∧
      ∃ p path params,
        ((empty.register .get ['/', 'a', '.', '{', 'b', '}', '/'] []).state.resolve .get path
          false).found? = some (⟨p, [], 0⟩, params) := by
  obtain ⟨p, -, hreached⟩ :=
    register_reached_iff .get ['/', 'a', '.', '{', 'b', '}', '/'] [] false rfl
  exact ⟨rfl, p, hreached.2 (.inr (by decide))⟩

/-- The route `/a{b}/` is accepted, and no path is answered by it or by any other. -/
theorem register_unreached_mixedSlash :
    (empty.register .get ['/', 'a', '{', 'b', '}', '/'] []).refusal? = none ∧
      ∀ path unescape, ((empty.register .get ['/', 'a', '{', 'b', '}', '/'] []).state.resolve .get
        path unescape).isMatch = false := by
  have hr : Reachable _ := .register .empty .get ['/', 'a', '{', 'b', '}', '/'] []
  obtain ⟨p, hparse, hroutes⟩ := register_empty_accepted .get ['/', 'a', '{', 'b', '}', '/'] [] rfl
  refine ⟨rfl, fun path unescape => ?_⟩
  rw [Bool.eq_false_iff, Ne, hr.valid.isMatch_iff, hroutes]
  intro hmatched
  have hreached := (Route.exists_path_iff (e := ⟨p, [], 0⟩) (Pattern.formed_parse hparse)).1
    ⟨path, by simpa [Matched] using hmatched⟩
  obtain rfl := Except.ok.inj hparse
  revert hreached
  decide

end Router

end HttpRouting
