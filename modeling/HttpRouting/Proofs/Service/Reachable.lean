import HttpRouting.Proofs.Router.Reads
import HttpRouting.Service.Basic

/-!
# Services in use

What a response is and what it does to a service. The outcome depends on how the current router
resolves the path (`Service.outcome_of_found`, `Service.redirects_iff`); the service asks the
router, once or twice, and changes nothing else (`Service.service_respond`). `Service.Reachable` are
the services that configuration, registrations and requests lead to.
-/

namespace HttpRouting

theorem Resolution.found?_of_advisesSlash {x : Resolution} (h : x.advisesSlash = true) :
    x.found? = none := by
  cases x with
  | slashAdvised => rfl
  | _ => cases h

namespace Service

variable {s : Service} {m : Method} {path : Text} {id : RequestId}

/-- How the path of a request is resolved. -/
def resolve (s : Service) (m : Method) (path : Text) : Resolution :=
  s.router.current.resolve m path s.settings.unescape

/-- The service after its current router has been asked. -/
def ask (s : Service) (q : Router.Query) : Service :=
  { s with router := (s.router.read q.read).2.1 }

theorem alike_ask (s : Service) (q : Router.Query) :
    (s.ask q).router.current.Alike s.router.current :=
  q.alike_read s.router.current

/-! ## Outcomes -/

theorem outcome_respond (s : Service) (m : Method) (path : Text) (id : RequestId) :
    (s.respond m path id).outcome =
      ((s.ask (.resolve m path s.settings.unescape)).answer m path id (s.resolve m path)).outcome :=
  rfl

/-- A request that a route matches is handled by it. -/
theorem outcome_of_found {e : Route} {params : Params}
    (h : (s.resolve m path).found? = some (e, params)) (id : RequestId) :
    (s.respond m path id).outcome =
      .handled (.guarded (.new id m path (some e.text) params) e.handlers) := by
  rw [outcome_respond, answer, h]
  rfl

theorem answerUnmatched_ne_redirect (s : Service) (m : Method) (path : Text) (id : RequestId)
    (location : Text) (status : Nat) :
    (s.answerUnmatched m path id).outcome ≠ .redirect location status := by
  unfold answerUnmatched
  simp only
  split <;> exact nofun

/-- A request is redirected if that is advised, asked for, and not excluded by its method. -/
theorem redirects_iff {location : Text} {status : Nat} :
    (s.respond m path id).outcome = .redirect location status ↔
      ((s.resolve m path).advisesSlash = true ∧ s.settings.redirectSlash = true ∧ m ≠ .connect) ∧
        location = Path.flipSlash (Path.squeeze path) ∧ status = redirectStatus m := by
  rw [outcome_respond, answer]
  split
  · next e params hfound =>
    refine iff_of_false nofun fun h => ?_
    rw [Resolution.found?_of_advisesSlash h.1.1] at hfound
    cases hfound
  · split
    · next h =>
      rw [Bool.and_eq_true, Bool.and_eq_true, decide_eq_true_eq] at h
      constructor
      · intro hredirect
        cases hredirect
        exact ⟨⟨h.1.1, h.1.2, h.2⟩, rfl, rfl⟩
      · rintro ⟨-, rfl, rfl⟩
        rfl
    · next h =>
      refine iff_of_false (answerUnmatched_ne_redirect _ m path id _ _) fun h' => h ?_
      rw [Bool.and_eq_true, Bool.and_eq_true, decide_eq_true_eq]
      exact ⟨⟨h'.1.1, h'.1.2.1⟩, h'.1.2.2⟩

/-! ## The service after a response -/

theorem service_answerUnmatched (s : Service) (m : Method) (path : Text) (id : RequestId) :
    (s.answerUnmatched m path id).service = s ∨
      (s.answerUnmatched m path id).service = s.ask (.allowed path) := by
  have hread : (s.answerUnmatched m path id).service = (s.readAllowed path).2.1 := by
    unfold answerUnmatched
    simp only
    split <;> rfl
  rw [hread, readAllowed]
  split
  · refine .inr ?_
    simp only [ask, VersionedRouter.read, Router.Query.read, Reading.router_map]
  · exact .inl rfl

/-- The router is asked for the route, and then perhaps for the methods that are allowed. -/
theorem service_respond (s : Service) (m : Method) (path : Text) (id : RequestId) :
    (s.respond m path id).service = s.ask (.resolve m path s.settings.unescape) ∨
      (s.respond m path id).service =
        (s.ask (.resolve m path s.settings.unescape)).ask (.allowed path) := by
  have hanswer : (s.respond m path id).service =
      ((s.ask (.resolve m path s.settings.unescape)).answer m path id (s.resolve m path)).service :=
    rfl
  rw [hanswer, answer]
  split
  · exact .inl rfl
  · split
    · exact .inl rfl
    · exact service_answerUnmatched ..

/-- A response changes no answer. -/
theorem resolve_respond (s : Service) (m : Method) (path : Text) (id : RequestId) :
    (s.respond m path id).service.resolve = s.resolve := by
  funext m' path'
  rcases service_respond s m path id with h | h
  · rw [h]
    exact (alike_ask ..).resolve m' path' _
  · rw [h]
    exact ((alike_ask ..).trans (alike_ask ..)).resolve m' path' _

/-! ## Reachable services -/

/-- The services that configuration, registrations and readers lead to. -/
inductive Reachable : Service → Prop
  | ofRouter {r : Router} (hr : r.Reachable) (settings : Settings) :
    Reachable (ofRouter r settings)
  | addMiddleware {s : Service} (hs : Reachable s) (h : Handler) : Reachable (s.addMiddleware h)
  | onNotFound {s : Service} (hs : Reachable s) (handlers : List Handler) :
    Reachable { s with onNotFound := handlers }
  | onNotAllowed {s : Service} (hs : Reachable s) (handlers : List Handler) :
    Reachable { s with onNotAllowed := handlers }
  | register {s : Service} (hs : Reachable s) (m : Method) (text : Text) (handlers : List Handler) :
    Reachable (s.register m text handlers).state
  | ask {s : Service} (hs : Reachable s) (q : Router.Query) : Reachable (s.ask q)

namespace Reachable

theorem respond (hs : s.Reachable) (m : Method) (path : Text) (id : RequestId) :
    (s.respond m path id).service.Reachable := by
  rcases service_respond s m path id with h | h
  · rw [h]
    exact hs.ask _
  · rw [h]
    exact (hs.ask _).ask _

theorem current (hs : s.Reachable) : s.router.current.Reachable := by
  have hready : ∀ {r : Router} (prebuild : Bool), r.Reachable →
      (VersionedRouter.ready prebuild r).Reachable := by
    rintro r (_ | _) hr
    · exact hr
    · exact .buildAll hr
  induction hs with
  | ofRouter hr settings => exact hready settings.prebuild hr
  | addMiddleware hs h ih => exact ih
  | onNotFound hs handlers ih => exact ih
  | onNotAllowed hs handlers ih => exact ih
  | @register s hs m text handlers ih =>
    have hregister := ih.register m text (s.middleware ++ handlers)
    unfold Service.register VersionedRouter.register
    simp only
    split
    · exact ih
    · exact hready s.router.prebuild hregister
  | ask hs q ih => exact q.reachable_read ih

end Reachable

end Service

end HttpRouting
