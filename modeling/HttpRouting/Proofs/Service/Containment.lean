import HttpRouting.Proofs.Handler.Failure
import HttpRouting.Proofs.Router.Matching
import HttpRouting.Proofs.Service.Steps

/-!
# Failures are contained

What handlers do has no say in which kind of outcome a request comes to
(`Service.Reachable.kind_congr`), and a failure among them shows in the outcome of its own request
only (`Service.Reachable.failure_contained`).
-/

namespace HttpRouting

/-- Nothing is started any more once a run is aborted, however it is called on from outside. -/
theorem Courses.starts_of_aborted {calls : List Script} {r r' : Run} {ms : List Moment}
    (h : Courses calls r ms r') (hr : r.exchange.progress = .aborted) : Moment.starts ms = [] := by
  apply List.filterMap_eq_nil_iff.2
  intro m hm
  exact (h.steps.aborted hr m hm).2

theorem Run.texts_failed (r : Run) (message : Option Text) :
    (r.failed message).exchange.errors.map Attached.text = r.exchange.errors.map Attached.text ++
      ["handler panicked: ".toList ++ message.getD "unknown panic".toList] :=
  List.map_append

/-- The status of the run is that of the response. -/
theorem Outcome.status_of_run? {x : Outcome} {run : Run} {status : Nat} (h : x.run? = some run)
    (hstatus : run.exchange.status = some status) : x.status = status := by
  cases x with
  | redirect => cases h
  | handled | methodNotAllowed | notFound =>
    cases h
    rw [Outcome.status, hstatus]
    rfl

namespace Service

variable {s s' : Service} {m : Method} {path : Text} {id : RequestId}

/-- What is run for a request: the request before its handlers, and these. A redirect runs none. -/
def toRun? (s : Service) (m : Method) (path : Text) (id : RequestId) :
    Option (Exchange × List Handler) :=
  match (s.resolve m path).found? with
  | some (e, params) => some (.new id m path (some e.text) params, e.handlers)
  | none =>
    if s.redirects m path then none
    else
      let x := Exchange.new id m path none []
      match s.others m path with
      | [] => some (x.setStatus 404, s.middleware ++ s.onNotFound)
      | _ => some (x.setStatus 405, s.middleware ++ s.onNotAllowed)

theorem run?_respond (s : Service) (m : Method) (path : Text) (id : RequestId) :
    (s.respond m path id).outcome.run? =
      (s.toRun? m path id).map fun (x, handlers) => Run.guarded x handlers := by
  rw [outcome_eq, toRun?]
  cases (s.resolve m path).found? with
  | some found => rfl
  | none =>
    by_cases hredirect : s.redirects m path = true
    · simp only [if_pos hredirect]
      rfl
    · simp only [if_neg hredirect, unmatched]
      cases s.others m path <;> rfl

theorem kind_of_congr (hmatch : (s.resolve m path).isMatch = (s'.resolve m path).isMatch)
    (hredirects : s.redirects m path = s'.redirects m path)
    (hothers : s.others m path = s'.others m path) (id id' : RequestId) :
    let x := (s.respond m path id).outcome
    let x' := (s'.respond m path id').outcome
    x.kind = x'.kind ∧ x.allow = x'.allow ∧ x.location? = x'.location? := by
  simp only [outcome_eq, unmatched, hredirects, hothers]
  rw [Resolution.isMatch, Resolution.isMatch] at hmatch
  cases hfound : (s.resolve m path).found? with
  | some found =>
    rw [hfound] at hmatch
    obtain ⟨found', hfound'⟩ := Option.isSome_iff_exists.1 hmatch.symm
    rw [hfound']
    exact ⟨rfl, rfl, rfl⟩
  | none =>
    rw [hfound] at hmatch
    rw [Option.not_isSome_iff_eq_none.1 (Bool.eq_false_iff.1 hmatch.symm)]
    by_cases hredirect : s'.redirects m path = true
    · simp only [if_pos hredirect, and_self]
    · simp only [if_neg hredirect]
      cases s'.others m path <;> exact ⟨rfl, rfl, rfl⟩

namespace Reachable

/-- Which kind of outcome a request comes to depends on what is registered, and under which
settings, but not on any handler. -/
theorem kind_congr (hs : s.Reachable) (hs' : s'.Reachable)
    (hsame : ∀ x, x ∈ s.router.current.routes ↔ x ∈ s'.router.current.routes)
    (hsettings : s.settings = s'.settings) (m : Method) (path : Text) (id id' : RequestId) :
    let x := (s.respond m path id).outcome
    let x' := (s'.respond m path id').outcome
    x.kind = x'.kind ∧ x.allow = x'.allow ∧ x.location? = x'.location? := by
  have hvalid := hs.current.valid
  have hvalid' := hs'.current.valid
  have hin : ∀ m, PatternsIn (s.router.current.routesOf m).routes
      (s'.router.current.routesOf m).routes := by
    intro m
    apply hvalid.patternsIn m hvalid'
    intro e he
    exact hvalid'.mem_routes.1 ((hsame _).1 (hvalid.mem_routes.2 ⟨e, he, rfl⟩))
  have hin' : ∀ m, PatternsIn (s'.router.current.routesOf m).routes
      (s.router.current.routesOf m).routes := by
    intro m
    apply hvalid'.patternsIn m hvalid
    intro e he
    exact hvalid.mem_routes.1 ((hsame _).2 (hvalid'.mem_routes.2 ⟨e, he, rfl⟩))
  refine kind_of_congr ?_ ?_ ?_ id id'
  · exact hvalid.isMatch_congr m path _ hvalid' (hin m) (hin' m) _
  · rw [redirects, redirects, resolve, resolve, hsettings]
    rw [hvalid.advisesSlash_congr m path _ hvalid' (hin m) (hin' m)]
  · unfold others Router.allowed
    rw [hsettings]
    congr 3
    funext m'
    exact hvalid.isMatch_congr m' path false hvalid' (hin m') (hin' m') false

/-- The kind of outcome does not depend on any handler. Handlers that run take one course. If none
fails, the request is left as they leave it. A failure, wherever it happens, is the last moment, so
that nothing starts after it, not even from outside. What the request was right before is kept, but
it is aborted with status 500 and has one more error, which says what the failure was. Every later
request is answered as if this one had not been made. -/
theorem failure_contained (hs : s.Reachable) (m : Method) (path : Text) (id : RequestId) :
    (∀ s' : Service, s'.Reachable → s.settings = s'.settings →
      (∀ x, x ∈ s.router.current.routes ↔ x ∈ s'.router.current.routes) → ∀ id',
        (s.respond m path id).outcome.kind = (s'.respond m path id').outcome.kind) ∧
    (∀ x handlers, s.toRun? m path id = some (x, handlers) →
      let r := Run.start x handlers
      let run := Run.guarded x handlers
      (s.respond m path id).outcome.run? = some run ∧
      ∃ ms, Course (.action .next) r ms r.next ∧
        (∀ ms' r', Course (.action .next) r ms' r' → ms' = ms ∧ r' = r.next) ∧
        (Calm ms → run = r.next) ∧
        ∀ before moment after, ms = before ++ moment :: after → moment.after.Failed →
          after = [] ∧
          ∃ message, moment = .performed (.fail message) ((r.past before).fail message) ∧
          run = (r.past before).failed message ∧
          run.exchange.errors.map Attached.text =
            (r.past before).exchange.errors.map Attached.text ++
              ["handler panicked: ".toList ++ message.getD "unknown panic".toList] ∧
          (s.respond m path id).outcome.status = 500 ∧
          ∀ calls ms' r', Courses calls run ms' r' → Moment.starts ms' = []) ∧
    ∀ steps m' path' id',
      (((s.respond m path id).service.run steps).respond m' path' id').outcome =
        ((s.run steps).respond m' path' id').outcome := by
  refine ⟨?_, ?_, ?_⟩
  · intro s' hs' hsettings hsame id'
    exact (hs.kind_congr hs' hsame hsettings m path id id').1
  · intro x handlers hx r run
    have hrun : (s.respond m path id).outcome.run? = some run := by
      rw [run?_respond, hx]
      rfl
    obtain ⟨ms, hms⟩ := Course.exists_next r
    refine ⟨hrun, ms, hms, fun ms' r' h => hms.unique h, Run.guarded_of_ok hms, ?_⟩
    intro before moment after hsplit hfailed
    obtain ⟨hafter, message, hmoment, hguarded⟩ := Run.guarded_of_failed hms hsplit hfailed
    change run = (r.past before).failed message at hguarded
    refine ⟨hafter, message, hmoment, hguarded, ?_, ?_, ?_⟩
    · rw [hguarded]
      exact Run.texts_failed _ message
    · apply Outcome.status_of_run? hrun
      rw [hguarded]
      rfl
    · intro calls ms' r' h
      rw [hguarded] at h
      exact h.starts_of_aborted rfl
  · intro steps m' path' id'
    exact ((Alike.respond s m path id).run steps).outcome m' path' id'

/-- The second handler of `/x` attaches an error and fails, within a call of the first for the
rest. The first does not get to set another status, and the third is not started. -/
theorem failure_contained_nested : ∃ s run, Reachable s ∧
    (s.respond .get ['/', 'x'] ⟨0⟩).outcome = .handled run ∧
    (s.respond .get ['/', 'x'] ⟨0⟩).outcome.status = 500 ∧ run.started = 2 ∧
    run.exchange.errors = [.message ['e'], .failure ['f']] ∧
    ((s.respond .get ['/', 'x'] ⟨0⟩).service.respond .put ['/', 'x'] ⟨1⟩).outcome.status = 404 := by
  have hr : Router.Reachable _ := .register .empty .get ['/', 'x']
    [.act .next (.one (.setStatus 200)),
      .act (.attach (.message ['e'])) (.one (.fail (some ['f']))), .one (.setStatus 201)]
  have hs : Reachable _ := .ofRouter hr {}
  obtain ⟨-, hruns, hlater⟩ := hs.failure_contained .get ['/', 'x'] ⟨0⟩
  obtain ⟨hrun, ms, hms, -, -, hfailure⟩ := hruns _ _ rfl
  rcases hms.failed_cases Bool.false_ne_true with ⟨hok, -⟩ | ⟨before, message, hsplit, -⟩
  · exact absurd rfl hok
  · obtain ⟨-, _, -, -, -, hstatus, -⟩ := hfailure before _ [] hsplit rfl
    have hput := congrArg Outcome.status (hlater [] .put ['/', 'x'] ⟨1⟩)
    exact ⟨_, _, hs, rfl, hstatus, rfl, rfl, hput⟩

end Reachable

end Service

end HttpRouting
