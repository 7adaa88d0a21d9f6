import HttpRouting.Proofs.Router.Snapshots
import HttpRouting.Proofs.Service.Reachable

/-!
# Services step by step

A service is configured, gains routes and answers requests, in any order (`Service.run`). What a
request comes to is told by the current routes, the settings and the configured handlers
(`Service.outcome_eq`). So it does not matter which tables are built: services that differ in
nothing else are alike, give the same outcomes and stay alike (`Service.Alike.run`), and a response
leaves a service alike behind (`Service.Alike.respond`).
-/

namespace HttpRouting.Service

variable {s s' s'' : Service} {m : Method} {path : Text} {id : RequestId}

/-! ## Outcomes -/

/-- A redirect is advised, asked for, and not excluded by the method. -/
def redirects (s : Service) (m : Method) (path : Text) : Bool :=
  (s.resolve m path).advisesSlash && s.settings.redirectSlash && m ≠ .connect

/-- The methods that are named to a request which its own method has no route for. -/
def others (s : Service) (m : Method) (path : Text) : List Method :=
  if s.settings.reportAllowed then (s.router.current.allowed path).filter (· ≠ m) else []

/-- What a request without a route comes to. -/
def unmatched (s : Service) (m : Method) (path : Text) (id : RequestId) : Outcome :=
  match s.others m path with
  | [] => .notFound (s.runUnmatched m path id s.onNotFound 404)
  | allow => .methodNotAllowed allow (s.runUnmatched m path id s.onNotAllowed 405)

theorem outcome_answerUnmatched (s : Service) (m : Method) (path : Text) (id : RequestId) :
    (s.answerUnmatched m path id).outcome = s.unmatched m path id := by
  have hread : (s.readAllowed path).1.filter (· ≠ m) = s.others m path := by
    unfold readAllowed others
    split
    · exact congrArg _ (Router.answer_readAllowed s.router.current path)
    · rfl
  have hmiddleware : (s.readAllowed path).2.1.middleware = s.middleware ∧
      (s.readAllowed path).2.1.onNotFound = s.onNotFound ∧
      (s.readAllowed path).2.1.onNotAllowed = s.onNotAllowed := by
    unfold readAllowed
    split <;> exact ⟨rfl, rfl, rfl⟩
  unfold answerUnmatched unmatched runUnmatched
  simp only [hread, hmiddleware]
  cases s.others m path <;> rfl

/-- What a request comes to, told without the tables that are built on the way. -/
theorem outcome_eq (s : Service) (m : Method) (path : Text) (id : RequestId) :
    (s.respond m path id).outcome =
      match (s.resolve m path).found? with
      | some (e, params) =>
        .handled (.guarded (.new id m path (some e.text) params) e.handlers)
      | none =>
        if s.redirects m path then
          .redirect (Path.flipSlash (Path.squeeze path)) (redirectStatus m)
        else s.unmatched m path id := by
  have halike := s.alike_ask (.resolve m path s.settings.unescape)
  have hunmatched : (s.ask (.resolve m path s.settings.unescape)).unmatched m path id =
      s.unmatched m path id := by
    have hallowed : (s.ask (.resolve m path s.settings.unescape)).router.current.allowed path =
        s.router.current.allowed path := by
      unfold Router.allowed
      simp only [halike.resolve]
    unfold unmatched others
    rw [hallowed]
    rfl
  rw [outcome_respond, answer]
  cases (s.resolve m path).found? with
  | some found => rfl
  | none =>
    rw [← hunmatched, ← outcome_answerUnmatched]
    show (ite _ _ _ : Response).outcome = ite _ _ _
    exact apply_ite ..

theorem outcome_cases (s : Service) (m : Method) (path : Text) (id : RequestId) :
    (∃ e params, (s.resolve m path).found? = some (e, params) ∧ (s.respond m path id).outcome =
      .handled (.guarded (.new id m path (some e.text) params) e.handlers)) ∨
    (s.resolve m path).found? = none ∧
      ((s.respond m path id).outcome =
          .redirect (Path.flipSlash (Path.squeeze path)) (redirectStatus m) ∨
        s.others m path = [] ∧ (s.respond m path id).outcome =
          .notFound (s.runUnmatched m path id s.onNotFound 404) ∨
        s.others m path ≠ [] ∧ (s.respond m path id).outcome =
          .methodNotAllowed (s.others m path) (s.runUnmatched m path id s.onNotAllowed 405)) := by
  rw [outcome_eq]
  cases hfound : (s.resolve m path).found? with
  | some found => exact .inl ⟨found.1, found.2, rfl, rfl⟩
  | none =>
    refine .inr ⟨rfl, ?_⟩
    simp only
    split
    · exact .inl rfl
    · right
      unfold unmatched
      split
      · next hnone => exact .inl ⟨hnone, rfl⟩
      · next hsome => exact .inr ⟨hsome, rfl⟩

variable {after : Run}

/-- A request that is handled runs the handlers of the route that was found. -/
theorem run_of_handled (h : (s.respond m path id).outcome = .handled after) :
    ∃ e params, (s.resolve m path).found? = some (e, params) ∧
      after = .guarded (.new id m path (some e.text) params) e.handlers := by
  rcases s.outcome_cases m path id with ⟨e, params, hfound, h'⟩ | ⟨-, h' | ⟨-, h'⟩ | ⟨-, h'⟩⟩
  · cases h'.symm.trans h
    exact ⟨e, params, hfound, rfl⟩
  all_goals cases h'.symm.trans h

theorem run_of_notFound (h : (s.respond m path id).outcome = .notFound after) :
    s.others m path = [] ∧ after = s.runUnmatched m path id s.onNotFound 404 := by
  rcases s.outcome_cases m path id with ⟨e, params, -, h'⟩ | ⟨-, h' | ⟨hnone, h'⟩ | ⟨-, h'⟩⟩
  case inr.inr.inl =>
    cases h'.symm.trans h
    exact ⟨hnone, rfl⟩
  all_goals cases h'.symm.trans h

theorem run_of_methodNotAllowed {allow : List Method}
    (h : (s.respond m path id).outcome = .methodNotAllowed allow after) :
    allow = s.others m path ∧ s.others m path ≠ [] ∧
      after = s.runUnmatched m path id s.onNotAllowed 405 := by
  rcases s.outcome_cases m path id with ⟨e, params, -, h'⟩ | ⟨-, h' | ⟨-, h'⟩ | ⟨hsome, h'⟩⟩
  case inr.inr.inr =>
    cases h'.symm.trans h
    exact ⟨rfl, hsome, rfl⟩
  all_goals cases h'.symm.trans h

/-! ## Steps -/

/-- What may be done with a service. -/
inductive Step
  | addMiddleware (h : Handler)
  | onNotFound (handlers : List Handler)
  | onNotAllowed (handlers : List Handler)
  | register (call : Router.Call)
  | respond (m : Method) (path : Text) (id : RequestId)
  /-- Asks the current router. -/
  | ask (q : Router.Query)

def step (s : Service) : Step → Service
  | .addMiddleware h => s.addMiddleware h
  | .onNotFound handlers => { s with onNotFound := handlers }
  | .onNotAllowed handlers => { s with onNotAllowed := handlers }
  | .register call => (s.register call.method call.pattern call.handlers).state
  | .respond m path id => (s.respond m path id).service
  | .ask q => s.ask q

def run (s : Service) (steps : List Step) : Service := steps.foldl step s

theorem run_append (s : Service) (steps steps' : List Step) :
    s.run (steps ++ steps') = (s.run steps).run steps' :=
  List.foldl_append

theorem Reachable.step (hs : s.Reachable) (x : Step) : (s.step x).Reachable := by
  cases x with
  | addMiddleware h => exact .addMiddleware hs h
  | onNotFound handlers => exact .onNotFound hs handlers
  | onNotAllowed handlers => exact .onNotAllowed hs handlers
  | register call => exact .register hs ..
  | respond m path id => exact hs.respond m path id
  | ask q => exact .ask hs q

theorem Reachable.run (hs : s.Reachable) (steps : List Step) : (s.run steps).Reachable := by
  induction steps generalizing s with
  | nil => exact hs
  | cons x steps ih => exact ih (hs.step x)

theorem state_register (s : Service) (m : Method) (text : Text) (handlers : List Handler) :
    (s.register m text handlers).state = { s with
      router := (s.router.register m text (s.middleware ++ handlers)).state } := rfl

/-! ## Services alike -/

/-- Services that differ in nothing but the tables that have been built, and in earlier versions. -/
structure Alike (s s' : Service) : Prop where
  current : s.router.current.Alike s'.router.current
  prebuild : s.router.prebuild = s'.router.prebuild
  settings : s.settings = s'.settings
  middleware : s.middleware = s'.middleware
  onNotFound : s.onNotFound = s'.onNotFound
  onNotAllowed : s.onNotAllowed = s'.onNotAllowed

namespace Alike

theorem symm (h : s.Alike s') : s'.Alike s :=
  ⟨h.current.symm, h.prebuild.symm, h.settings.symm, h.middleware.symm, h.onNotFound.symm,
    h.onNotAllowed.symm⟩

theorem trans (h : s.Alike s') (h' : s'.Alike s'') : s.Alike s'' :=
  ⟨h.current.trans h'.current, h.prebuild.trans h'.prebuild, h.settings.trans h'.settings,
    h.middleware.trans h'.middleware, h.onNotFound.trans h'.onNotFound,
    h.onNotAllowed.trans h'.onNotAllowed⟩

theorem ask (s : Service) (q : Router.Query) : (s.ask q).Alike s :=
  ⟨s.alike_ask q, rfl, rfl, rfl, rfl, rfl⟩

/-- A response leaves no trace but the tables that it built. -/
theorem respond (s : Service) (m : Method) (path : Text) (id : RequestId) :
    (s.respond m path id).service.Alike s := by
  rcases service_respond s m path id with h | h
  · rw [h]
    exact ask s _
  · rw [h]
    exact (ask _ _).trans (ask s _)

theorem resolve (h : s.Alike s') (m : Method) (path : Text) :
    s.resolve m path = s'.resolve m path := by
  unfold Service.resolve
  rw [h.settings]
  exact h.current.resolve m path _

/-- Alike services answer alike. -/
theorem outcome (h : s.Alike s') (m : Method) (path : Text) (id : RequestId) :
    (s.respond m path id).outcome = (s'.respond m path id).outcome := by
  have hredirects : s.redirects m path = s'.redirects m path := by
    rw [redirects, redirects, h.resolve, h.settings]
  have hothers : s.others m path = s'.others m path := by
    unfold others Router.allowed
    simp only [h.current.resolve, h.settings]
  have hunmatched : s.unmatched m path id = s'.unmatched m path id := by
    unfold unmatched runUnmatched
    rw [hothers, h.middleware, h.onNotFound, h.onNotAllowed]
  rw [outcome_eq, outcome_eq, h.resolve, hredirects, hunmatched]

theorem register (h : s.Alike s') (m : Method) (text : Text) (handlers : List Handler) :
    (s.register m text handlers).state.Alike (s'.register m text handlers).state := by
  obtain ⟨hrefusal, hstate⟩ := h.current.register m text (s'.middleware ++ handlers)
  rw [state_register, state_register]
  refine ⟨?_, ?_, h.settings, h.middleware, h.onNotFound, h.onNotAllowed⟩
  · simp only [VersionedRouter.register, h.middleware, hrefusal]
    cases hcase : (s'.router.current.register m text (s'.middleware ++ handlers)).refusal? with
    | some refusal => exact h.current
    | none =>
      have halike := hstate (hrefusal.trans hcase)
      exact ((VersionedRouter.alike_ready _ _).trans halike).trans
        (VersionedRouter.alike_ready _ _).symm
  · simp only [VersionedRouter.register, h.middleware, hrefusal]
    cases (s'.router.current.register m text (s'.middleware ++ handlers)).refusal? with
    | some refusal => exact h.prebuild
    | none => exact h.prebuild

theorem step (h : s.Alike s') (x : Step) : (s.step x).Alike (s'.step x) := by
  cases x with
  | addMiddleware handler =>
    exact ⟨h.current, h.prebuild, h.settings, congrArg (· ++ [handler]) h.middleware,
      h.onNotFound, h.onNotAllowed⟩
  | onNotFound handlers =>
    exact ⟨h.current, h.prebuild, h.settings, h.middleware, rfl, h.onNotAllowed⟩
  | onNotAllowed handlers =>
    exact ⟨h.current, h.prebuild, h.settings, h.middleware, h.onNotFound, rfl⟩
  | register call => exact h.register call.method call.pattern call.handlers
  | respond m path id =>
    exact ((Alike.respond s m path id).trans h).trans (Alike.respond s' m path id).symm
  | ask q => exact ((Alike.ask s q).trans h).trans (Alike.ask s' q).symm

theorem run (h : s.Alike s') (steps : List Step) : (s.run steps).Alike (s'.run steps) := by
  induction steps generalizing s s' with
  | nil => exact h
  | cons x steps ih => exact ih (h.step x)

end Alike

/-- The step only asks the service. -/
def Step.Asks : Step → Prop
  | .respond .. | .ask _ => True
  | .addMiddleware _ | .onNotFound _ | .onNotAllowed _ | .register _ => False

theorem alike_run_of_asks (s : Service) {steps : List Step} (h : ∀ x ∈ steps, x.Asks) :
    (s.run steps).Alike s := by
  induction steps generalizing s with
  | nil => exact ⟨.refl _, rfl, rfl, rfl, rfl, rfl⟩
  | cons x steps ih =>
    obtain ⟨hx, hsteps⟩ := List.forall_mem_cons.1 h
    refine (ih (s.step x) hsteps).trans ?_
    cases x with
    | respond m path id => exact .respond s m path id
    | ask q => exact .ask s q
    | addMiddleware | onNotFound | onNotAllowed | register => cases hx

end HttpRouting.Service
