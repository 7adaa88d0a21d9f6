import HttpRouting.Proofs.Pattern.Subsumption
import HttpRouting.Proofs.Router.Matching
import HttpRouting.Proofs.Router.Reads

/-!
# Routes that are never reached

A registration notes a route that is not reached if an earlier one is found to subsume it. The note
stays true whatever is registered later (`Router.Reachable.borneOut`), as the earlier route goes
first wherever the fallback table is asked. No path is answered by such a route, as long as its
pattern holds no line feed: a catch-all leaves that one sign to the routes behind it.
-/

namespace HttpRouting

/-- What a note goes by: the pattern is not walkable, and an earlier route subsumes it. -/
def Unreachable.BorneOut (u : Unreachable) (routes : List Route) : Prop :=
  ∃ p, Pattern.parse u.pattern = .ok p ∧ p.isWalkable = false ∧
    ∃ c ∈ routes, c.text = u.coveredBy ∧ c.pattern.subsumes p = true ∧
      ∀ e ∈ routes, e.text = u.pattern → c.number < e.number

/-- Routes that come later leave a note as it is. -/
theorem Unreachable.BorneOut.append {u : Unreachable} {routes more : List Route}
    (h : u.BorneOut routes) (hlater : ∀ c ∈ routes, ∀ e ∈ more, c.number < e.number) :
    u.BorneOut (routes ++ more) := by
  obtain ⟨p, hparse, hp, c, hc, hcovered, hsubsumes, hfirst⟩ := h
  refine ⟨p, hparse, hp, c, List.mem_append_left _ hc, hcovered, hsubsumes, fun e he htext => ?_⟩
  rcases List.mem_append.1 he with he | he
  · exact hfirst e he htext
  · exact hlater c hc e he

theorem MethodRoutes.covering?_eq_some {t : MethodRoutes} {p : Pattern} {c : Route}
    (h : t.covering? p = some c) :
    p.isWalkable = false ∧ c ∈ t.routes ∧ c.pattern.subsumes p = true := by
  unfold covering? at h
  split at h
  · cases h
  · next hp =>
    have hsubsumes := List.find?_some h
    exact ⟨Bool.eq_false_iff.2 hp, List.mem_of_find?_eq_some h, hsubsumes⟩

namespace Router

variable {r : Router} {m : Method} {text : Text} {p : Pattern}

/-- The notes of a router with one more route: those before, and one on the new route if an earlier
one subsumes it. -/
theorem Valid.borneOut_extend (hr : r.Valid) (hparse : Pattern.parse text = .ok p)
    (hfree : (r.routesOf m).holds p = false) (handlers : List Handler)
    (hnotes : ∀ u ∈ r.unreachable, u.BorneOut (r.routesOf u.method).routes) :
    ∀ u ∈ (r.extend m ⟨p, handlers, r.count⟩).unreachable,
      u.BorneOut ((r.extend m ⟨p, handlers, r.count⟩).routesOf u.method).routes := by
  intro u hu
  rw [hr.routes_extend hparse hfree]
  have hlater : ∀ c ∈ (r.routesOf u.method).routes,
      ∀ e ∈ (if u.method = m then [⟨p, handlers, r.count⟩] else [] : List Route),
        c.number < e.number := by
    intro c hc e he
    split at he
    · rw [List.mem_singleton.1 he]
      exact hr.number_lt u.method c hc
    · cases he
  rcases List.mem_append.1 hu with hu | hu
  · exact (hnotes u hu).append hlater
  obtain ⟨c, hcovering, rfl⟩ := Option.map_eq_some_iff.1 (Option.mem_toList.1 hu)
  obtain ⟨hp, hc, hsubsumes⟩ := MethodRoutes.covering?_eq_some hcovering
  refine ⟨p, ?_, hp, c, List.mem_append_left _ hc, rfl, hsubsumes, fun e he htext => ?_⟩
  · show Pattern.parse p.text = .ok p
    rw [Pattern.text_parse hparse]
    exact hparse
  · rcases List.mem_append.1 he with he | he
    · -- The pattern was free, so that no route before has its text.
      have hholds := (MethodRoutes.holds_iff (hr.routesOf m).taken p).2
        ⟨e, he, congrArg Text.lower htext⟩
      rw [hfree] at hholds
      cases hholds
    · exact hlater c hc e he

/-- Building tables leaves the notes as they are. -/
theorem Alike.borneOut {r' : Router} (h : r'.Alike r)
    (hnotes : ∀ u ∈ r.unreachable, u.BorneOut (r.routesOf u.method).routes) :
    ∀ u ∈ r'.unreachable, u.BorneOut (r'.routesOf u.method).routes := by
  intro u hu
  rw [h.unreachable_eq] at hu
  rw [h.routes_eq]
  exact hnotes u hu

theorem Reachable.borneOut (hr : r.Reachable) :
    ∀ u ∈ r.unreachable, u.BorneOut (r.routesOf u.method).routes := by
  induction hr with
  | empty => exact nofun
  | register hr m text handlers ih =>
    rcases hr.valid.register_cases m text handlers with ⟨refusal, h⟩ | ⟨p, hparse, hfree, h⟩
    · rw [h]
      exact ih
    · rw [h]
      exact hr.valid.borneOut_extend hparse hfree handlers ih
  | build hr m ih => exact (Alike.build _ m).borneOut ih
  | buildAll hr ih => exact (Alike.buildAll _).borneOut ih

/-- The route of a note takes no path from the one that covers it. -/
theorem Reachable.not_answers_of_borneOut (hr : r.Reachable) {u : Unreachable}
    (hu : u.BorneOut (r.routesOf u.method).routes) (hline : '\n' ∉ u.pattern)
    {path : Text} {unescape : Bool} {e : Route} {params : Params}
    (hfound : (r.resolve u.method path unescape).found? = some (e, params)) :
    e.text ≠ u.pattern := by
  obtain ⟨p, hparse, hp, c, hc, -, hsubsumes, hfirst⟩ := hu
  intro htext
  have hvalid := hr.valid.routesOf u.method
  have hagrees := hvalid.agrees (Path.squeeze path) unescape
  rw [found?_resolve] at hfound
  obtain ⟨he, hanswers⟩ := hagrees.answers hfound
  have hparsed := hvalid.grown.parse_text he
  rw [htext, hparse] at hparsed
  obtain rfl := Except.ok.inj hparsed
  rcases hanswers with ⟨⟨hwalkable, -⟩, -⟩ | ⟨hnot, hscans, -⟩
  · rw [hp] at hwalkable
    cases hwalkable
  have hcovers : c.Scans (Path.trimSlash (Path.squeeze path)) := by
    refine ⟨?_, ?_⟩
    · rw [Bool.eq_false_iff]
      intro hwalkable
      rw [Pattern.isWalkable_of_subsumes hsubsumes hwalkable] at hp
      cases hp
    · refine Pattern.isMatch_of_subsumes (Pattern.formed_parse (hvalid.grown.parse_text hc))
        (Pattern.formed_parse hparse) hsubsumes ?_ hscans.2
      rwa [Pattern.text_parse hparse]
  -- Both routes take the trimmed path, and the table answers with the earlier one.
  obtain ⟨e', -, -, hleast, params', -, hfound'⟩ := hagrees.unwalkable hnot ⟨e, he, hscans⟩
  cases hfound'.symm.trans hfound
  exact absurd (hleast c hc hcovers) (Nat.not_le_of_lt (hfirst e he htext))

/-- No path is answered by a route that is noted as never reached, if its pattern holds no line
feed. -/
theorem Reachable.unreachable_never_found (hr : r.Reachable) {u : Unreachable}
    (hu : u ∈ r.unreachable) (hline : '\n' ∉ u.pattern) (path : Text) (unescape : Bool) :
    (r.resolve u.method path unescape).route?.map Route.text ≠ some u.pattern := by
  intro h
  obtain ⟨e, hroute, htext⟩ := Option.map_eq_some_iff.1 h
  obtain ⟨⟨_, params⟩, hfound, rfl⟩ := Option.map_eq_some_iff.1 hroute
  exact hr.not_answers_of_borneOut (hr.borneOut u hu) hline hfound htext

/-- Behind `/*a` the route `/{b}.c` is not reached. -/
theorem Reachable.unreachable_never_found_mixed : ∃ r, Reachable r ∧
    ⟨.get, ['/', '{', 'b', '}', '.', 'c'], ['/', '*', 'a']⟩ ∈ r.unreachable ∧
    '\n' ∉ ['/', '{', 'b', '}', '.', 'c'] ∧
    (r.resolve .get ['/', 'x', '.', 'c'] false).route?.map Route.text ≠
      some ['/', '{', 'b', '}', '.', 'c'] := by
  have hr : Reachable _ :=
    .register (.register .empty .get ['/', '*', 'a'] []) .get ['/', '{', 'b', '}', '.', 'c'] []
  refine ⟨_, hr, List.mem_singleton_self _, by decide, ?_⟩
  exact hr.unreachable_never_found (List.mem_singleton_self _) (by decide) ['/', 'x', '.', 'c']
    false

/-- Behind `/*a` a line feed and a parameter are noted as not reached, and reached all the same: the
catch-all takes no line feed. -/
theorem Reachable.unreachable_found_lineFeed : ∃ r, Reachable r ∧
    ⟨.get, ['/', '\n', '{', 'b', '}'], ['/', '*', 'a']⟩ ∈ r.unreachable ∧
    (r.resolve .get ['/', '\n', 'x'] false).route?.map Route.text =
      some ['/', '\n', '{', 'b', '}'] := by
  have hr : Reachable _ :=
    .register (.register .empty .get ['/', '*', 'a'] []) .get ['/', '\n', '{', 'b', '}'] []
  refine ⟨_, hr, List.mem_singleton_self _, ?_⟩
  obtain ⟨e, he, hscans, -, params, -, hfound⟩ :=
    ((hr.valid.routesOf .get).agrees ['/', '\n', 'x'] false).unwalkable (by decide) (by decide)
  have htext : e.text = ['/', '\n', '{', 'b', '}'] := by
    clear hfound
    revert e
    decide
  have hsqueeze : Path.squeeze ['/', '\n', 'x'] = ['/', '\n', 'x'] := rfl
  rw [Resolution.route?, found?_resolve, hsqueeze, hfound, Option.map_some, Option.map_some, htext]

end Router

end HttpRouting
