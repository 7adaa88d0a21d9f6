import HttpRouting.Cli.Report
import HttpRouting.Proofs.Params
import HttpRouting.Proofs.Router.Captures
import HttpRouting.Proofs.Router.Matching

/-!
# One rule for repeated names

Where a pattern repeats a name, the value captured last counts. A lookup among the parameters, the
dictionary made of them, a handler that reads one and the report of a request all follow that rule,
and the names that a pattern is said to repeat are those that hide a value from it
(`Params.last_counts`).
-/

namespace HttpRouting

/-! ## Repeated names -/

theorem duplicate_concat {α : Type} {l : List α} {x a : α} :
    List.Duplicate x (l ++ [a]) ↔ List.Duplicate x l ∨ x = a ∧ x ∈ l := by
  induction l with
  | nil => simp
  | cons b l ih =>
    rw [List.cons_append, List.duplicate_cons_iff, List.duplicate_cons_iff, ih, List.mem_append,
      List.mem_singleton, List.mem_cons, and_or_left, and_or_left, eq_comm (a := b)]
    tauto

namespace Pattern

/-- The second list has the names that occur more than once in the first, each of them once. -/
structure Repeated (names found : List Text) : Prop where
  nodup : found.Nodup
  mem_iff : ∀ name, name ∈ found ↔ List.Duplicate name names

namespace Repeated

variable {seen found : List Text}

theorem nil : Repeated [] [] := ⟨.nil, fun name => iff_of_false nofun (List.not_duplicate_nil name)⟩

/-- One more name is added to those found if it was seen before and was not found yet. -/
theorem step (h : Repeated seen found) (n : Text) :
    Repeated (seen ++ [n]) (if n ∈ seen ∧ n ∉ found then found ++ [n] else found) := by
  constructor
  · split
    · next hn =>
      rw [← List.concat_eq_append]
      exact .concat hn.2 h.nodup
    · exact h.nodup
  · intro name
    rw [duplicate_concat, ← h.mem_iff]
    split
    · next hn =>
      rw [List.mem_append, List.mem_singleton]
      refine or_congr_right (iff_self_and.2 ?_)
      rintro rfl
      exact hn.1
    · next hn =>
      -- A name that was seen and is not added was found before.
      refine (or_iff_left_of_imp ?_).symm
      rintro ⟨rfl, hseen⟩
      exact not_not.1 fun hnew => hn ⟨hseen, hnew⟩

theorem repeatedIn (h : Repeated seen found) (rest : List Text) :
    Repeated (seen ++ rest) (repeatedIn seen found rest) := by
  induction rest generalizing seen found with
  | nil =>
    rw [List.append_nil]
    exact h
  | cons n rest ih =>
    rw [List.append_cons]
    exact ih (h.step n)

end Repeated

theorem repeated_repeatedNames (p : Pattern) : Repeated p.names p.repeatedNames :=
  Repeated.nil.repeatedIn p.names

end Pattern

/-! ## Names of captures -/

theorem Route.names_of_capture? {e : Route} {path : Text} {unescape : Bool} {params : Params}
    (h : e.capture? path unescape = some params) : params.map Param.name = e.names := by
  obtain ⟨values, hvalues, rfl⟩ := Option.map_eq_some_iff.1 h
  have hlength : values.length = e.names.length :=
    Pattern.length_of_decomposition (Pattern.capture?_eq_some_iff.1 hvalues).1
  refine names_paramsOf ?_
  split
  · rw [List.length_map, hlength]
  · exact hlength

theorem Router.Valid.names_of_found? {r : Router} (hr : r.Valid) {m : Method} {path : Text}
    {unescape : Bool} {e : Route} {params : Params}
    (h : (r.resolve m path unescape).found? = some (e, params)) :
    params.map Param.name = e.pattern.names :=
  Route.names_of_capture? (hr.capture?_of_found? m path unescape h)

/-! ## The last value counts -/

theorem Cli.Report.params_ofOutcome {x : Exchange} {outcome : Outcome}
    (h : outcome.exchange? = some x) (m : Method) (path : Text) :
    (ofOutcome m path outcome).params = Params.toDict x.params := by
  rw [ofOutcome, h]
  rfl

namespace Params

/-- Of the values that were pushed under a name the last one counts, for a lookup, for the
dictionary, for a handler and for a report alike. -/
structure LastCounts (pushes : List (Text × Text)) (ps : Params) : Prop where
  last : ∀ name value, ps.get? name = some value ↔ ∃ before after,
    pushes = before ++ (name, value) :: after ∧ ∀ e ∈ after, e.1 ≠ name
  absent : ∀ name, ps.get? name = none ↔ ∀ e ∈ pushes, e.1 ≠ name
  dict : ps.toDict.Collects ps (pushes.map (·.1))
  handler : ∀ x : Exchange, x.params = ps → ∀ name, x.param name = (ps.get? name).getD []
  report : ∀ x : Exchange, x.params = ps → ∀ (outcome : Outcome) m path,
    outcome.exchange? = some x →
      (Cli.Report.ofOutcome m path outcome).params.Collects ps (pushes.map (·.1))
  /-- If the parameters are those of a matched path, the names that its pattern repeats are listed
  once each, and are those under which a value is hidden. -/
  repeated : ∀ (r : Router) m path unescape e, r.Reachable →
    (r.resolve m path unescape).found? = some (e, ps) →
    e.pattern.repeatedNames.Nodup ∧
      ∀ name, name ∈ e.pattern.repeatedNames ↔ ps.Hides name

/-- Whatever is pushed, the last value under a name is the one that is found. -/
theorem last_counts (pushes : List (Text × Text)) : LastCounts pushes (ofPushes pushes) := by
  refine ⟨fun name value => ?last, fun name => ?absent, collects_toDict pushes,
    fun x hx name => ?handler, fun x hx outcome m path houtcome => ?report,
    fun r m path unescape e hr hfound => ?repeated⟩
  case last => rw [get?_ofPushes, Dict.get?_ofList_eq_some_iff]
  case absent => rw [get?_ofPushes, Dict.get?_ofList_eq_none_iff]
  case handler => rw [Exchange.param, hx]
  case report =>
    rw [Cli.Report.params_ofOutcome houtcome, hx]
    exact collects_toDict pushes
  case repeated =>
    have hrepeated := e.pattern.repeated_repeatedNames
    refine ⟨hrepeated.nodup, fun name => ?_⟩
    rw [hrepeated.mem_iff, hides_iff, hr.valid.names_of_found? hfound]

/-- Under `/{id}/{id}` the second value of `/a/b` counts, and the first one is hidden. -/
theorem last_counts_twice : ∃ (r : Router) (e : Route) (x : Exchange),
    r.Reachable ∧ (r.resolve .get ['/', 'a', '/', 'b'] false).found? = some (e, x.params) ∧
    x.param ['i', 'd'] = ['b'] ∧ ['i', 'd'] ∈ e.pattern.repeatedNames := by
  have hlast := last_counts [(['i', 'd'], ['a']), (['i', 'd'], ['b'])]
  obtain ⟨r, hr, hparams⟩ : ∃ r : Router, r.Reachable ∧
      (r.resolve .get ['/', 'a', '/', 'b'] false).found?.map (·.2) =
        some (ofPushes [(['i', 'd'], ['a']), (['i', 'd'], ['b'])]) :=
    ⟨_, .register .empty .get ['/', '{', 'i', 'd', '}', '/', '{', 'i', 'd', '}'] [],
      by decide +kernel⟩
  obtain ⟨⟨e, params⟩, hfound, rfl⟩ := Option.map_eq_some_iff.1 hparams
  have hhides : Hides (ofPushes [(['i', 'd'], ['a']), (['i', 'd'], ['b'])]) ['i', 'd'] :=
    ⟨[], ['a'], _, rfl, List.mem_singleton_self _⟩
  exact ⟨r, e, .new ⟨0⟩ .get ['/', 'a', '/', 'b'] none _, hr, hfound,
    (hlast.handler _ rfl _).trans rfl, ((hlast.repeated r _ _ _ e hr hfound).2 _).2 hhides⟩

end Params

end HttpRouting
