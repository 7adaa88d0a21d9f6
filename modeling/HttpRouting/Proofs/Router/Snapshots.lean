import HttpRouting.Proofs.Router.Reads
import HttpRouting.Router.Versions

/-!
# Snapshots

Readers that keep versions of a router while others register routes, replace the router, and have
tables built by asking. With every table built, the versions are a list that only grows
(`Session.settled_run`): a version that was loaded answers the same ever after, and the current one
answers as a plain router that was given the accepted registrations (`Session.Follows.run`).
-/

namespace HttpRouting

/-! ## Versions -/

namespace VersionedRouter

variable {v : VersionedRouter} {r r' : Router}

/-- The published versions, oldest first, with every table built: what reads cannot change. -/
def settled (v : VersionedRouter) : List Router := (v.earlier ++ [v.current]).map Router.buildAll

theorem length_settled (v : VersionedRouter) : v.settled.length = v.version + 1 := by
  simp [settled, version]

theorem at?_eq (v : VersionedRouter) (n : Nat) : v.at? n = (v.earlier ++ [v.current])[n]? := by
  unfold at? version
  split
  · next h => rw [h, List.getElem?_concat_length]
  · next h =>
    by_cases hlt : n < v.earlier.length
    · rw [List.getElem?_append_left hlt]
    · have hlen : (v.earlier ++ [v.current]).length ≤ n := by
        rw [List.length_append, List.length_singleton]
        omega
      rw [List.getElem?_eq_none (Nat.le_of_not_lt hlt), List.getElem?_eq_none hlen]

theorem settled_getElem? (v : VersionedRouter) (n : Nat) :
    v.settled[n]? = (v.at? n).map Router.buildAll := by
  rw [settled, List.getElem?_map, at?_eq]

theorem alike_ready (prebuild : Bool) (r : Router) : (ready prebuild r).Alike r := by
  cases prebuild with
  | true => exact .buildAll r
  | false => exact .refl r

theorem refusal?_register (v : VersionedRouter) (m : Method) (text : Text)
    (handlers : List Handler) :
    (v.register m text handlers).refusal? = (v.current.register m text handlers).refusal? := by
  unfold register
  cases hrefusal : (v.current.register m text handlers).refusal? <;> simp only [hrefusal]

theorem settled_publish (v : VersionedRouter) (r : Router) :
    (v.publish r).settled = v.settled ++ [r.buildAll] := by
  have hready : (ready v.prebuild r).buildAll = r.buildAll := alike_ready v.prebuild r
  simp only [settled, publish, List.map_append, List.map_singleton, hready]

theorem settled_read (v : VersionedRouter) (q : Router.Query) :
    (v.read q.read).2.1.settled = v.settled := by
  have halike : (q.read v.current).router.buildAll = v.current.buildAll := q.alike_read v.current
  simp only [settled, read, List.map_append, List.map_singleton, halike]

theorem settled_setAt {n : Nat} (hn : v.at? n = some r) (h : r'.Alike r) :
    (v.setAt n r').settled = v.settled := by
  have h : r'.buildAll = r.buildAll := h
  unfold at? at hn
  unfold setAt
  split at hn
  · next hv =>
    cases hn
    rw [if_pos hv]
    simp only [settled, List.map_append, List.map_singleton, h]
  · next hv =>
    obtain ⟨hlt, rfl⟩ := List.getElem?_eq_some_iff.1 hn
    rw [if_neg hv]
    simp only [settled, List.map_append, List.map_set, h]
    rw [← List.getElem_map Router.buildAll (h := by simpa using hlt), List.set_getElem_self]

end VersionedRouter

/-! ## Sessions -/

/-- A call that registers a route. -/
structure Router.Call where
  method : Method
  pattern : Text
  handlers : List Handler

/-- A versioned router with those who use it. -/
structure Session where
  shared : VersionedRouter
  /-- The versions that were loaded, in the order of loading. -/
  loaded : List Nat

namespace Session

/-- What one of the users may do. -/
inductive Step
  | register (call : Router.Call)
  | replace (r : Router)
  /-- Keeps the current version at hand. -/
  | load
  /-- Asks a version that was loaded, or the current one. -/
  | read (handle? : Option Nat) (q : Router.Query)

def start (r : Router) (prebuild : Bool) : Session := ⟨.new r prebuild, []⟩

/-- Registers a route in a new version. -/
def register (s : Session) (call : Router.Call) : Registration VersionedRouter :=
  s.shared.register call.method call.pattern call.handlers

/-- Asks a version that was loaded, or the current one; none if no such version was loaded. -/
def read? (s : Session) (handle? : Option Nat) (q : Router.Query) :
    Option (Router.Answer × VersionedRouter × List Event) :=
  match handle? with
  | none => some (s.shared.read q.read)
  | some i => s.loaded[i]?.bind fun n => s.shared.read? n q.read

def answer? (s : Session) (handle? : Option Nat) (q : Router.Query) : Option Router.Answer :=
  (s.read? handle? q).map (·.1)

def step (s : Session) : Step → Session
  | .register call => { s with shared := (s.register call).state }
  | .replace r => { s with shared := (s.shared.replace r).1 }
  | .load => { s with loaded := s.loaded ++ [s.shared.version] }
  | .read handle? q =>
    match s.read? handle? q with
    | some (_, shared, _) => { s with shared }
    | none => s

def run (s : Session) (steps : List Step) : Session := steps.foldl step s

/-- The router that was put in place last, and the calls accepted since. -/
structure Course where
  base : Router
  calls : List Router.Call

namespace Course

/-- A plain router that is given the accepted calls one after another. -/
def router (c : Course) : Router :=
  c.calls.foldl (fun r call => (r.register call.method call.pattern call.handlers).state) c.base

/-- The course after one step of a session. -/
def next (c : Course) (s : Session) : Step → Course
  | .register call => if (s.register call).refusal? = none then ⟨c.base, c.calls ++ [call]⟩ else c
  | .replace r => ⟨r, []⟩
  | .load | .read .. => c

def follow (c : Course) (s : Session) : List Step → Course
  | [] => c
  | x :: steps => (c.next s x).follow (s.step x) steps

end Course

variable {s : Session} {c : Course} {call : Router.Call}

/-! ## What every step keeps -/

theorem register_refused (h : (s.register call).refusal? ≠ none) :
    (s.register call).state = s.shared := by
  unfold register VersionedRouter.register at h ⊢
  cases hrefusal : (s.shared.current.register call.method call.pattern call.handlers).refusal? with
  | some refusal => simp only [hrefusal]
  | none => simp [hrefusal] at h

theorem refusal?_register (s : Session) (call : Router.Call) :
    (s.register call).refusal? =
      (s.shared.current.register call.method call.pattern call.handlers).refusal? :=
  s.shared.refusal?_register call.method call.pattern call.handlers

theorem register_accepted (h : (s.register call).refusal? = none) :
    (s.register call).state = s.shared.publish
      (s.shared.current.register call.method call.pattern call.handlers).state := by
  rw [refusal?_register] at h
  unfold register VersionedRouter.register
  simp only [h]

/-- Reads build tables; with every table built they do nothing. -/
theorem settled_read? {handle? : Option Nat} {q : Router.Query} {answer : Router.Answer}
    {shared : VersionedRouter} {events : List Event}
    (h : s.read? handle? q = some (answer, shared, events)) :
    shared.settled = s.shared.settled := by
  unfold read? at h
  cases handle? with
  | none =>
    cases h
    exact s.shared.settled_read q
  | some i =>
    obtain ⟨n, -, h⟩ := Option.bind_eq_some_iff.1 h
    obtain ⟨r, hr, h⟩ := Option.map_eq_some_iff.1 h
    cases h
    exact VersionedRouter.settled_setAt hr (q.alike_read r)

theorem step_read (s : Session) (handle? : Option Nat) (q : Router.Query) :
    (s.step (.read handle? q)).loaded = s.loaded ∧
      (s.step (.read handle? q)).shared.settled = s.shared.settled := by
  simp only [step]
  cases h : s.read? handle? q with
  | none => exact ⟨rfl, rfl⟩
  | some x => exact ⟨rfl, settled_read? h⟩

/-- Versions are added, never changed. -/
theorem settled_step (s : Session) (x : Step) : s.shared.settled <+: (s.step x).shared.settled := by
  cases x with
  | register call =>
    show _ <+: (s.register call).state.settled
    by_cases h : (s.register call).refusal? = none
    · rw [register_accepted h, VersionedRouter.settled_publish]
      exact List.prefix_append _ _
    · exact ⟨[], by rw [register_refused h, List.append_nil]⟩
  | replace r =>
    show _ <+: (s.shared.publish r).settled
    rw [VersionedRouter.settled_publish]
    exact List.prefix_append _ _
  | load => exact List.prefix_rfl
  | read handle? q => exact ⟨[], by rw [(s.step_read handle? q).2, List.append_nil]⟩

theorem settled_run (s : Session) (steps : List Step) :
    s.shared.settled <+: (s.run steps).shared.settled := by
  induction steps generalizing s with
  | nil => exact List.prefix_rfl
  | cons x steps ih => exact (s.settled_step x).trans (ih (s.step x))

theorem loaded_step (s : Session) (x : Step) :
    (s.step x).loaded = s.loaded ∨ (s.step x).loaded = s.loaded ++ [s.shared.version] := by
  cases x with
  | register call | replace r => exact .inl rfl
  | load => exact .inr rfl
  | read handle? q => exact .inl (s.step_read handle? q).1

theorem loaded_run (s : Session) (steps : List Step) : s.loaded <+: (s.run steps).loaded := by
  induction steps generalizing s with
  | nil => exact List.prefix_rfl
  | cons x steps ih =>
    refine List.IsPrefix.trans ?_ (ih (s.step x))
    rcases s.loaded_step x with h | h
    · exact ⟨[], by rw [h, List.append_nil]⟩
    · exact ⟨[s.shared.version], h.symm⟩

/-- A session whose current version is the plain router of a course, tables aside, and whose loaded
versions are there. -/
structure Follows (s : Session) (c : Course) : Prop where
  current : s.shared.current.Alike c.router
  loaded : ∀ n ∈ s.loaded, n < s.shared.settled.length

theorem follows_start (r : Router) (prebuild : Bool) : (start r prebuild).Follows ⟨r, []⟩ :=
  ⟨VersionedRouter.alike_ready prebuild r, nofun⟩

namespace Follows

theorem refusal?_eq (h : s.Follows c) (call : Router.Call) :
    (s.register call).refusal? =
      (c.router.register call.method call.pattern call.handlers).refusal? := by
  rw [refusal?_register]
  exact (h.current.register call.method call.pattern call.handlers).1

/-- One step takes the current version where the course takes the plain router. -/
theorem alike_step (h : s.Follows c) (x : Step) :
    (s.step x).shared.current.Alike (c.next s x).router := by
  cases x with
  | register call =>
    show (s.register call).state.current.Alike (c.next s (.register call)).router
    simp only [Course.next]
    by_cases haccepted : (s.register call).refusal? = none
    · rw [register_accepted haccepted, if_pos haccepted, Course.router, List.foldl_append]
      rw [refusal?_register] at haccepted
      have hregister := (h.current.register call.method call.pattern call.handlers).2 haccepted
      exact (VersionedRouter.alike_ready _ _).trans hregister
    · rw [register_refused haccepted, if_neg haccepted]
      exact h.current
  | replace r => exact VersionedRouter.alike_ready _ r
  | load => exact h.current
  | read handle? q =>
    have hsettled := congrArg List.getLast? (s.step_read handle? q).2
    simp only [VersionedRouter.settled, List.map_append, List.map_singleton, List.getLast?_concat,
      Option.some.injEq] at hsettled
    exact Router.Alike.trans hsettled h.current

theorem step (h : s.Follows c) (x : Step) : (s.step x).Follows (c.next s x) := by
  refine ⟨h.alike_step x, fun n hn => ?_⟩
  have hlength := (s.settled_step x).length_le
  rcases s.loaded_step x with hloaded | hloaded
  · rw [hloaded] at hn
    exact Nat.lt_of_lt_of_le (h.loaded n hn) hlength
  · rw [hloaded] at hn
    rcases List.mem_append.1 hn with hn | hn
    · exact Nat.lt_of_lt_of_le (h.loaded n hn) hlength
    · rw [List.mem_singleton.1 hn]
      rw [VersionedRouter.length_settled] at hlength
      exact hlength

theorem run (h : s.Follows c) (steps : List Step) : (s.run steps).Follows (c.follow s steps) := by
  induction steps generalizing s c with
  | nil => exact h
  | cons x steps ih => exact ih (h.step x)

end Follows

/-! ## Isolation -/

/-- What a handle answers can be told from the version that was loaded, with every table built. -/
theorem answer?_handle (s : Session) (i : Nat) (q : Router.Query) :
    s.answer? (some i) q =
      (s.loaded[i]?.bind fun n => s.shared.settled[n]?).map fun r => (q.read r).answer := by
  simp only [answer?, read?]
  cases s.loaded[i]? with
  | none => rfl
  | some n =>
    rw [Option.bind_some, Option.bind_some, VersionedRouter.settled_getElem?,
      VersionedRouter.read?]
    cases s.shared.at? n with
    | none => rfl
    | some r => exact congrArg some (q.answer_congr (Router.Alike.buildAll r).symm)

/-- In every session, whatever is registered, replaced, loaded or asked in whatever order: the
current version answers as a plain router that was given the calls accepted since the last
replacement; a loaded version goes on answering as it did; loading keeps the current version; and a
call is refused exactly if that plain router refuses it, and then leaves everything as it was. -/
theorem isolated (r : Router) (prebuild : Bool) (steps later : List Step) :
    let s := (start r prebuild).run steps
    let plain := ((⟨r, []⟩ : Course).follow (start r prebuild) steps).router
    (∀ q, s.answer? none q = some (q.read plain).answer) ∧
    (∀ i q, i < s.loaded.length → ∃ answer, s.answer? (some i) q = some answer ∧
      (s.run later).answer? (some i) q = some answer) ∧
    (∀ q, (s.step .load).answer? (some s.loaded.length) q = s.answer? none q) ∧
    ∀ call, (s.register call).refusal? =
        (plain.register call.method call.pattern call.handlers).refusal? ∧
      ((s.register call).refusal?.isSome = true → s.step (.register call) = s) := by
  intro s plain
  have hfollows : s.Follows _ := (follows_start r prebuild).run steps
  refine ⟨fun q => ?_, fun i q hi => ?_, fun q => ?_, fun call => ⟨?_, fun hrefused => ?_⟩⟩
  · exact congrArg some (q.answer_congr hfollows.current)
  · have hn := hfollows.loaded _ (List.getElem_mem hi)
    have hloaded := List.prefix_iff_getElem?.1 (s.loaded_run later) i hi
    have hsettled := List.prefix_iff_getElem?.1 (s.settled_run later) _ hn
    refine ⟨(q.read s.shared.settled[s.loaded[i]]).answer, ?_, ?_⟩
    · rw [answer?_handle, List.getElem?_eq_getElem hi, Option.bind_some,
        List.getElem?_eq_getElem hn]
      rfl
    · rw [answer?_handle, hloaded, Option.bind_some, hsettled]
      rfl
  · rw [answer?_handle]
    show (((s.loaded ++ [s.shared.version])[s.loaded.length]?).bind _).map _ = _
    rw [List.getElem?_concat_length, Option.bind_some]
    show Option.map _ s.shared.settled[s.shared.version]? = _
    rw [VersionedRouter.settled_getElem?, VersionedRouter.at?, if_pos rfl]
    exact congrArg some (q.answer_congr (Router.Alike.buildAll _))
  · exact hfollows.refusal?_eq call
  · have hstate : (s.register call).state = s.shared :=
      register_refused (Option.isSome_iff_ne_none.1 hrefused)
    show (⟨(s.register call).state, s.loaded⟩ : Session) = s
    rw [hstate]

end Session

end HttpRouting
