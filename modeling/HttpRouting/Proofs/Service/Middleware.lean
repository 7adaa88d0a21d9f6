import HttpRouting.Proofs.Handler.Failure
import HttpRouting.Proofs.Router.Matching
import HttpRouting.Proofs.Service.Steps

/-!
# Middleware

Which handlers run for a request. Those of a route are fixed when the route is registered: the
middleware added before, then its own. Those of a request without a route are put together when the
request is answered. What one step does to the chains of routes is said in
`Service.Reachable.chains_step`, what a whole run does in `Service.Reachable.mem_chains_run`; the
outcomes of requests are read off in `Service.chains_composed`.
-/

namespace HttpRouting.Service

variable {s s' : Service} {r : Router} {settings : Settings} {m : Method} {text : Text}
  {chain : List Handler} {steps : List Step}

/-! ## What steps say -/

def Step.middleware? : Step → Option Handler
  | .addMiddleware h => some h
  | _ => none

def Step.notFound? : Step → Option (List Handler)
  | .onNotFound handlers => some handlers
  | _ => none

def Step.notAllowed? : Step → Option (List Handler)
  | .onNotAllowed handlers => some handlers
  | _ => none

/-- The middleware that steps add, in the order in which they add it. -/
def added (steps : List Step) : List Handler := steps.filterMap Step.middleware?

/-- The handlers that steps set last for requests that nothing matches; none unless they set
some. -/
def lastNotFound (steps : List Step) : List Handler :=
  (steps.filterMap Step.notFound?).getLast?.getD []

/-- The handlers that steps set last for requests that only other methods match. -/
def lastNotAllowed (steps : List Step) : List Handler :=
  (steps.filterMap Step.notAllowed?).getLast?.getD []

/-- The chain of a route, where a service starts with the routes of a router. -/
inductive Composed (r : Router) (settings : Settings) (m : Method) (text : Text) :
    List Step → List Handler → Prop
  /-- A route that was there from the start has its own handlers. -/
  | own {steps : List Step} {e : Route} (he : e ∈ (r.routesOf m).routes) (htext : e.text = text) :
    Composed r settings m text steps e.handlers
  /-- Any other has the middleware added before it was registered, and then its own. -/
  | registered {before after : List Step} {handlers : List Handler}
    (haccepted : (((ofRouter r settings).run before).register m text handlers).refusal? = none) :
    Composed r settings m text (before ++ .register ⟨m, text, handlers⟩ :: after)
      (added before ++ handlers)

theorem middleware_step (s : Service) (x : Step) :
    (s.step x).middleware = s.middleware ++ x.middleware?.toList := by
  cases x with
  | addMiddleware h => rfl
  | respond m path id =>
    exact (Alike.respond s m path id).middleware.trans (List.append_nil _).symm
  | onNotFound | onNotAllowed | register | ask => exact (List.append_nil _).symm

theorem middleware_run (s : Service) (steps : List Step) :
    (s.run steps).middleware = s.middleware ++ added steps := by
  induction steps generalizing s with
  | nil => exact (List.append_nil _).symm
  | cons x steps ih =>
    have hadded : added (x :: steps) = x.middleware?.toList ++ added steps := by
      cases x <;> rfl
    rw [hadded, ← List.append_assoc, ← middleware_step]
    exact ih (s.step x)

/-- What is set as a whole is in the end what was set last. -/
theorem last_run {α : Type} {field : Service → α} {set? : Step → Option α}
    (hstep : ∀ s x, field (s.step x) = (set? x).getD (field s)) (s : Service)
    (steps : List Step) :
    field (s.run steps) = (steps.filterMap set?).getLast?.getD (field s) := by
  induction steps generalizing s with
  | nil => rfl
  | cons x steps ih =>
    rw [List.filterMap_cons]
    refine (ih (s.step x)).trans ?_
    rw [hstep]
    cases set? x with
    | none => rfl
    | some a => rw [List.getLast?_cons]; rfl

theorem onNotFound_step (s : Service) (x : Step) :
    (s.step x).onNotFound = x.notFound?.getD s.onNotFound := by
  cases x with
  | respond m path id => exact (Alike.respond s m path id).onNotFound
  | addMiddleware | onNotFound | onNotAllowed | register | ask => rfl

theorem onNotAllowed_step (s : Service) (x : Step) :
    (s.step x).onNotAllowed = x.notAllowed?.getD s.onNotAllowed := by
  cases x with
  | respond m path id => exact (Alike.respond s m path id).onNotAllowed
  | addMiddleware | onNotFound | onNotAllowed | register | ask => rfl

/-! ## Chains of routes -/

/-- The routes of a method in the order of registration, each with the handlers that run for it. -/
def chains (s : Service) (m : Method) : List (Text × List Handler) :=
  (s.router.current.routesOf m).routes.map fun e => (e.text, e.handlers)

/-- The route of a method that a step adds. -/
def chain? (s : Service) (m : Method) : Step → Option (Text × List Handler)
  | .register call =>
    if call.method = m ∧
        (s.register call.method call.pattern call.handlers).refusal? = none then
      some (call.pattern, s.middleware ++ call.handlers)
    else none
  | _ => none

theorem Alike.chains (h : s.Alike s') (m : Method) : s.chains m = s'.chains m := by
  rw [Service.chains, Service.chains, h.current.routes_eq]

theorem chains_ofRouter (r : Router) (settings : Settings) (m : Method) :
    (ofRouter r settings).chains m = (r.routesOf m).routes.map fun e => (e.text, e.handlers) := by
  have halike : (ofRouter r settings).router.current.Alike r :=
    VersionedRouter.alike_ready settings.prebuild r
  rw [chains, halike.routes_eq]

namespace Reachable

/-- A step adds the route that it registers, behind the others; what is refused adds none. -/
theorem chains_step (hs : s.Reachable) (m : Method) (x : Step) :
    (s.step x).chains m = s.chains m ++ (s.chain? m x).toList := by
  cases x with
  | addMiddleware | onNotFound | onNotAllowed => exact (List.append_nil _).symm
  | respond m' path id =>
    exact ((Alike.respond s m' path id).chains m).trans (List.append_nil _).symm
  | ask q => exact ((Alike.ask s q).chains m).trans (List.append_nil _).symm
  | register call =>
    obtain ⟨m', text, handlers⟩ := call
    have hvalid := hs.current.valid
    show ((s.register m' text handlers).state.router.current.routesOf m).routes.map _ = _
    rcases hvalid.register_cases m' text (s.middleware ++ handlers) with
      ⟨refusal, h⟩ | ⟨p, hparse, hfree, h⟩
    · have hchain : s.chain? m (.register ⟨m', text, handlers⟩) = none := by
        simp [chain?, Service.register, VersionedRouter.register, h]
      rw [hchain, Service.register, VersionedRouter.register, h]
      exact (List.append_nil _).symm
    · have hchain : s.chain? m (.register ⟨m', text, handlers⟩) =
          if m' = m then some (text, s.middleware ++ handlers) else none := by
        simp [chain?, Service.register, VersionedRouter.register, h]
      rw [hchain, Service.register, VersionedRouter.register, h]
      show ((VersionedRouter.ready _ _).routesOf m).routes.map _ = _
      rw [(VersionedRouter.alike_ready ..).routes_eq, hvalid.routes_extend hparse hfree,
        List.map_append, ← Pattern.text_parse hparse]
      congr 1
      by_cases hm : m = m'
      · rw [if_pos hm, if_pos hm.symm]
        rfl
      · rw [if_neg hm, if_neg (Ne.symm hm)]
        rfl

/-- The routes after a run are those from before and those that one of its steps added. -/
theorem mem_chains_run (hs : s.Reachable) (m : Method) (steps : List Step)
    (c : Text × List Handler) : c ∈ (s.run steps).chains m ↔ c ∈ s.chains m ∨
      ∃ before x after, steps = before ++ x :: after ∧ (s.run before).chain? m x = some c := by
  induction steps generalizing s with
  | nil =>
    refine (or_iff_left ?_).symm
    rintro ⟨before, x, after, h, -⟩
    cases before <;> cases h
  | cons x steps ih =>
    show c ∈ ((s.step x).run steps).chains m ↔ _
    rw [ih (hs.step x), hs.chains_step, List.mem_append, Option.mem_toList, or_assoc]
    refine or_congr_right ?_
    constructor
    · rintro (h | ⟨before, y, after, rfl, h⟩)
      · exact ⟨[], x, steps, rfl, h⟩
      · exact ⟨x :: before, y, after, rfl, h⟩
    · rintro ⟨before, y, after, hsteps, h⟩
      cases before with
      | nil =>
        cases hsteps
        exact .inl h
      | cons z before =>
        cases hsteps
        exact .inr ⟨before, y, after, rfl, h⟩

/-- A text tells the chain of a route. -/
theorem chain_unique (hs : s.Reachable) {chain chain' : List Handler}
    (h : (text, chain) ∈ s.chains m) (h' : (text, chain') ∈ s.chains m) : chain' = chain := by
  obtain ⟨e, he, heq⟩ := List.mem_map.1 h
  obtain ⟨e', he', heq'⟩ := List.mem_map.1 h'
  obtain ⟨rfl, rfl⟩ := Prod.mk.inj heq
  obtain ⟨htext, rfl⟩ := Prod.mk.inj heq'
  rw [hs.current.eq_of_text he' he (congrArg Text.lower htext)]

end Reachable

theorem chain?_eq_some {x : Step} : s.chain? m x = some (text, chain) ↔
    ∃ handlers, x = .register ⟨m, text, handlers⟩ ∧
      (s.register m text handlers).refusal? = none ∧ chain = s.middleware ++ handlers := by
  constructor
  · intro h
    cases x with
    | register call =>
      obtain ⟨m', text', handlers⟩ := call
      simp only [chain?] at h
      split at h
      · next haccepted =>
        obtain ⟨rfl, haccepted⟩ := haccepted
        cases h
        exact ⟨handlers, rfl, haccepted, rfl⟩
      · cases h
    | addMiddleware | onNotFound | onNotAllowed | respond | ask => cases h
  · rintro ⟨handlers, rfl, haccepted, rfl⟩
    exact if_pos ⟨rfl, haccepted⟩

/-- The chains of the current routes are those that the steps say. -/
theorem mem_chains_iff (hr : r.Reachable) :
    (text, chain) ∈ ((ofRouter r settings).run steps).chains m ↔
      Composed r settings m text steps chain := by
  rw [(Reachable.ofRouter hr settings).mem_chains_run, chains_ofRouter]
  constructor
  · rintro (h | ⟨before, x, after, rfl, h⟩)
    · obtain ⟨e, he, heq⟩ := List.mem_map.1 h
      cases heq
      exact .own he rfl
    · obtain ⟨handlers, rfl, haccepted, rfl⟩ := chain?_eq_some.1 h
      rw [middleware_run]
      exact .registered haccepted
  · rintro (⟨he, rfl⟩ | haccepted)
    · exact .inl (List.mem_map.2 ⟨_, he, rfl⟩)
    · refine .inr ⟨_, _, _, rfl, chain?_eq_some.2 ⟨_, rfl, haccepted, ?_⟩⟩
      rw [middleware_run]
      rfl

/-! ## Chains that run -/

/-- Whatever is configured, registered and answered, in whatever order. A request that a route
handles runs the chain of the route: the middleware added before its registration and its own
handlers, or its own alone if it was there from the start. Nothing that comes later gives the route
another chain. A request without a route runs all middleware added so far, and then the handlers
that were set last. -/
theorem chains_composed (hr : r.Reachable) (settings : Settings) (steps : List Step) (m : Method)
    (path : Text) (id : RequestId) :
    let s := (ofRouter r settings).run steps
    (∀ run, (s.respond m path id).outcome = .handled run → ∃ text params chain,
      run = .guarded (.new id m path (some text) params) chain ∧ run.handlers = chain ∧
      Composed r settings m text steps chain) ∧
    (∀ text chain chain' later, Composed r settings m text steps chain →
      Composed r settings m text (steps ++ later) chain' → chain' = chain) ∧
    (∀ run, (s.respond m path id).outcome = .notFound run →
      let chain := added steps ++ lastNotFound steps
      run = .guarded ((Exchange.new id m path none []).setStatus 404) chain ∧
      run.handlers = chain) ∧
    ∀ allow run, (s.respond m path id).outcome = .methodNotAllowed allow run →
      let chain := added steps ++ lastNotAllowed steps
      run = .guarded ((Exchange.new id m path none []).setStatus 405) chain ∧
      run.handlers = chain := by
  intro s
  have hs : s.Reachable := (Reachable.ofRouter hr settings).run steps
  have hmiddleware : s.middleware = added steps := middleware_run _ steps
  have hnotFound : s.onNotFound = lastNotFound steps := last_run onNotFound_step _ steps
  have hnotAllowed : s.onNotAllowed = lastNotAllowed steps := last_run onNotAllowed_step _ steps
  refine ⟨?_, ?_, ?_, ?_⟩
  · intro run hrun
    obtain ⟨e, params, hfound, rfl⟩ := run_of_handled hrun
    refine ⟨e.text, params, e.handlers, rfl, Run.handlers_guarded .., (mem_chains_iff hr).1 ?_⟩
    exact List.mem_map.2 ⟨e, hs.current.valid.mem_of_found? m path _ hfound, rfl⟩
  · intro text chain chain' later hchain hchain'
    have hkept : (text, chain) ∈ (s.run later).chains m :=
      (hs.mem_chains_run m later _).2 (.inl ((mem_chains_iff hr).2 hchain))
    rw [← mem_chains_iff hr, run_append] at hchain'
    exact (hs.run later).chain_unique hkept hchain'
  · intro run hrun
    rw [(run_of_notFound hrun).2, runUnmatched, hmiddleware, hnotFound]
    exact ⟨rfl, Run.handlers_guarded ..⟩
  · intro allow run hrun
    rw [(run_of_methodNotAllowed hrun).2.2, runUnmatched, hmiddleware, hnotAllowed]
    exact ⟨rfl, Run.handlers_guarded ..⟩

/-- Middleware that comes after `/x` does not run for it; none runs for `/p`, which was there from
the start. -/
theorem chains_composed_between : ∃ (r : Router) (steps : List Step), r.Reachable ∧
    added steps = [.one (.setStatus 1), .one (.setStatus 3)] ∧
    (∀ chain, Composed r {} .get ['/', 'p'] steps chain → chain = [.one (.setStatus 0)]) ∧
    (∀ chain, Composed r {} .get ['/', 'x'] steps chain →
      chain = [.one (.setStatus 1), .one (.setStatus 2)]) ∧
    (((ofRouter r {}).run steps).respond .get ['/', 'x'] ⟨0⟩).outcome =
      .handled (.guarded (.new ⟨0⟩ .get ['/', 'x'] (some ['/', 'x']) [])
        [.one (.setStatus 1), .one (.setStatus 2)]) := by
  have hr : Router.Reachable _ := .register .empty .get ['/', 'p'] [.one (.setStatus 0)]
  refine ⟨_, [.addMiddleware (.one (.setStatus 1))] ++
    .register ⟨.get, ['/', 'x'], [.one (.setStatus 2)]⟩ :: [.addMiddleware (.one (.setStatus 3))],
    hr, rfl, ?_⟩
  obtain ⟨-, hunique, -⟩ := chains_composed hr {} ([.addMiddleware (.one (.setStatus 1))] ++
    .register ⟨.get, ['/', 'x'], [.one (.setStatus 2)]⟩ :: [.addMiddleware (.one (.setStatus 3))])
    .get ['/', 'x'] ⟨0⟩
  refine ⟨?_, ?_, rfl⟩
  · intro chain hchain
    exact hunique ['/', 'p'] _ chain []
      (.own (e := ⟨_, _, 0⟩) (List.mem_singleton_self _) rfl) hchain
  · intro chain hchain
    exact hunique ['/', 'x'] _ chain [] (.registered rfl) hchain

end HttpRouting.Service
