import HttpRouting.Proofs.Router.Snapshots

/-!
# Histories of routers

A router that is used: routes are registered, and it is asked in between. What it holds is told by
the calls that it accepted (`Router.Holds`). Each route is numbered by the accepted calls before it,
and the router answers as a plain one that was given these calls and never asked
(`Router.replay`).
-/

namespace HttpRouting

/-- What is kept of a registration: the number, the text and the handlers. -/
def Route.entry (e : Route) : Nat × Text × List Handler := (e.number, e.text, e.handlers)

namespace Router

/-- What one may do with a router. -/
inductive Use
  | register (call : Call)
  | read (q : Query)

def use (r : Router) : Use → Router
  | .register call => (r.register call.method call.pattern call.handlers).state
  | .read q => (q.read r).router

def uses (r : Router) (us : List Use) : Router := us.foldl use r

/-- The calls that succeed. -/
def accepted (r : Router) : List Use → List Call
  | [] => []
  | .register call :: us =>
    if (r.register call.method call.pattern call.handlers).refusal?.isNone then
      call :: (r.use (.register call)).accepted us
    else (r.use (.register call)).accepted us
  | .read q :: us => (r.use (.read q)).accepted us

/-- A router that is given calls one after another, and is never asked. -/
def replay (calls : List Call) : Router := empty.uses (calls.map .register)

/-- Whether a call succeeds after others. -/
def accepts (calls : List Call) (call : Call) : Bool :=
  ((replay calls).register call.method call.pattern call.handlers).refusal?.isNone

/-- The calls that have succeeded after one more use. -/
def noted (calls : List Call) : Use → List Call
  | .register call => if accepts calls call then calls ++ [call] else calls
  | .read _ => calls

/-- What calls that succeeded leave of a method: each with the number of those before it. -/
def entriesOf (m : Method) (calls : List Call) : List (Nat × Text × List Handler) :=
  (calls.zipIdx.filter (·.1.method = m)).map fun x => (x.2, x.1.pattern, x.1.handlers)

variable {r : Router} {m : Method} {calls : List Call} {call : Call}

/-! ## Entries -/

theorem entriesOf_concat (m : Method) (calls : List Call) (call : Call) :
    entriesOf m (calls ++ [call]) = entriesOf m calls ++
      if m = call.method then [(calls.length, call.pattern, call.handlers)] else [] := by
  simp only [entriesOf, List.zipIdx_append, List.filter_append, List.map_append,
    List.zipIdx_singleton, Nat.zero_add]
  congr 1
  by_cases hm : m = call.method
  · simp [hm]
  · simp [hm, Ne.symm hm]

theorem mem_entriesOf {n : Nat} {text : Text} {handlers : List Handler} :
    (n, text, handlers) ∈ entriesOf m calls ↔ calls[n]? = some ⟨m, text, handlers⟩ := by
  simp only [entriesOf, List.mem_map, List.mem_filter, List.mem_zipIdx_iff_getElem?,
    decide_eq_true_eq]
  constructor
  · rintro ⟨⟨call, n⟩, ⟨hcall, rfl⟩, h⟩
    cases h
    exact hcall
  · exact fun h => ⟨(_, n), ⟨h, rfl⟩, rfl⟩

theorem texts_entriesOf (m : Method) (calls : List Call) :
    (entriesOf m calls).map (·.2.1) = (calls.filter (·.method = m)).map Call.pattern := by
  have hcalls : calls.zipIdx.map (·.1) = calls := List.zipIdx_map_fst 0 calls
  calc (entriesOf m calls).map (·.2.1)
      = (calls.zipIdx.filter (·.1.method = m)).map (·.1.pattern) := by
        rw [entriesOf, List.map_map]
        rfl
    _ = ((calls.zipIdx.map (·.1)).filter (·.method = m)).map Call.pattern := by
        rw [List.filter_map, List.map_map]
        rfl
    _ = (calls.filter (·.method = m)).map Call.pattern := by rw [hcalls]

/-! ## What a router holds -/

theorem uses_append (r : Router) (us us' : List Use) : r.uses (us ++ us') = (r.uses us).uses us' :=
  List.foldl_append

theorem replay_concat (calls : List Call) (call : Call) :
    replay (calls ++ [call]) = (replay calls).use (.register call) := by
  rw [replay, List.map_append, uses_append]
  rfl

/-- A router that accepted the given calls, and no others. -/
structure Holds (r : Router) (calls : List Call) : Prop where
  reachable : r.Reachable
  /-- But for the tables, it is the router that was never asked. -/
  alike : r.Alike (replay calls)
  count : r.count = calls.length
  entries : ∀ m, (r.routesOf m).routes.map Route.entry = entriesOf m calls
  /-- A method has a place once a route was registered for it. -/
  placed : ∀ m, (r.routesOf? m).isSome = true ↔ ∃ call ∈ calls, call.method = m
  supported : ∀ call ∈ calls, call.method ∈ Method.supported
  distinct : (calls.map fun call => (call.method, Text.lower call.pattern)).Nodup

theorem holds_empty : empty.Holds [] where
  reachable := .empty
  alike := .refl _
  count := rfl
  entries _ := rfl
  placed _ := iff_of_false Bool.false_ne_true nofun
  supported := nofun
  distinct := .nil

theorem supported_of_accepted {text : Text} {handlers : List Handler}
    (h : (r.register m text handlers).refusal? = none) : m ∈ Method.supported := by
  unfold register at h
  split at h
  · assumption
  · cases h

theorem Alike.isSome_routesOf? {r' : Router} (h : r.Alike r') (m : Method) :
    (r.routesOf? m).isSome = (r'.routesOf? m).isSome :=
  h.congr (fun r => (r.routesOf? m).isSome) fun r => by rw [routesOf?_buildAll, Option.isSome_map]

namespace Holds

theorem of_alike {r' : Router} (h : r.Holds calls) (hr' : r'.Reachable) (halike : r'.Alike r) :
    r'.Holds calls where
  reachable := hr'
  alike := halike.trans h.alike
  count := halike.count_eq.trans h.count
  entries m := by rw [halike.routes_eq]; exact h.entries m
  placed m := by rw [halike.isSome_routesOf?]; exact h.placed m
  supported := h.supported
  distinct := h.distinct

theorem read (h : r.Holds calls) (q : Query) : (q.read r).router.Holds calls :=
  h.of_alike (q.reachable_read h.reachable) (q.alike_read r)

theorem ready (h : r.Holds calls) (prebuild : Bool) :
    (VersionedRouter.ready prebuild r).Holds calls := by
  refine h.of_alike ?_ (VersionedRouter.alike_ready prebuild r)
  cases prebuild with
  | true => exact .buildAll h.reachable
  | false => exact h.reachable

theorem refusal?_eq (h : r.Holds calls) (call : Call) :
    (r.register call.method call.pattern call.handlers).refusal?.isNone = accepts calls call := by
  rw [accepts, (h.alike.register call.method call.pattern call.handlers).1]

/-- A pattern that is free was not registered before, in any letter case. -/
theorem notMem_of_free (h : r.Holds calls) {p : Pattern} (hfree : (r.routesOf m).holds p = false) :
    (m, Text.lower p.text) ∉ calls.map fun call => (call.method, Text.lower call.pattern) := by
  intro hmem
  obtain ⟨⟨m', text, handlers⟩, hcall, heq⟩ := List.mem_map.1 hmem
  obtain ⟨rfl, htext⟩ := Prod.mk.inj heq
  obtain ⟨n, hn⟩ := List.mem_iff_getElem?.1 hcall
  have hentry := mem_entriesOf.2 hn
  rw [← h.entries] at hentry
  obtain ⟨e, he, hentry⟩ := List.mem_map.1 hentry
  cases hentry
  have hholds := (MethodRoutes.holds_iff (h.reachable.valid.routesOf m').taken p).2 ⟨e, he, htext⟩
  rw [hfree] at hholds
  cases hholds

theorem holds_iff (h : r.Holds calls) (p : Pattern) : (r.routesOf m).holds p = true ↔
    ∃ call ∈ calls, call.method = m ∧ Text.lower call.pattern = Text.lower p.text := by
  constructor
  · intro hholds
    obtain ⟨e, he, hlower⟩ :=
      (MethodRoutes.holds_iff (h.reachable.valid.routesOf m).taken p).1 hholds
    have hentry : e.entry ∈ entriesOf m calls := by
      rw [← h.entries]
      exact List.mem_map_of_mem he
    exact ⟨_, List.mem_of_getElem? (mem_entriesOf.1 hentry), rfl, hlower⟩
  · rintro ⟨call, hcall, rfl, hlower⟩
    cases hfree : (r.routesOf call.method).holds p with
    | true => rfl
    | false =>
      refine absurd ?_ (h.notMem_of_free hfree)
      exact List.mem_map.2 ⟨call, hcall, Prod.ext rfl hlower⟩

/-- Why a route is refused, told by the calls that the router has accepted. -/
theorem refusal?_register (h : r.Holds calls) (m : Method) (text : Text)
    (handlers : List Handler) : (r.register m text handlers).refusal? =
      if m ∈ Method.supported then
        match Pattern.parse text with
        | .error fault => some (.malformed text fault)
        | .ok _ =>
          if ∃ call ∈ calls, call.method = m ∧ Text.lower call.pattern = Text.lower text then
            some (.taken m text)
          else none
      else some (.unsupported m) := by
  unfold Router.register
  split
  · cases hparse : Pattern.parse text with
    | error fault => rfl
    | ok p =>
      have hholds := h.holds_iff (m := m) p
      rw [Pattern.text_parse hparse] at hholds
      by_cases hp : (r.routesOf m).holds p = true
      · rw [if_pos (hholds.1 hp)]
        simp only [add_of_holds handlers hp, Pattern.text_parse hparse]
      · rw [if_neg (mt hholds.2 hp)]
        simp only [h.reachable.valid.add_of_free handlers hparse (Bool.eq_false_iff.2 hp)]
  · rfl

/-- A call that succeeds adds its entry, one that is refused changes nothing. -/
theorem register (h : r.Holds calls) (call : Call) :
    (r.use (.register call)).Holds (noted calls (.register call)) := by
  obtain ⟨m, text, handlers⟩ := call
  have hrefusal := h.refusal?_eq ⟨m, text, handlers⟩
  have hvalid := h.reachable.valid
  have hreachable : (r.register m text handlers).state.Reachable :=
    .register h.reachable m text handlers
  have halike := (h.alike.register m text handlers).2
  simp only [use, noted, ← hrefusal]
  rcases hvalid.register_cases m text handlers with
    ⟨refusal, hregister⟩ | ⟨p, hparse, hfree, hregister⟩
  · rw [hregister]
    exact h
  have hsupported : m ∈ Method.supported := supported_of_accepted (congrArg (·.refusal?) hregister)
  rw [hregister] at hreachable halike ⊢
  rw [Option.isNone_none, if_pos rfl]
  refine ⟨hreachable, ?_, ?_, fun m' => ?_, fun m' => ?_, ?_, ?_⟩
  · rw [replay_concat]
    exact halike rfl
  · rw [List.length_append, ← h.count]
    rfl
  · rw [hvalid.routes_extend hparse hfree, List.map_append, h.entries, entriesOf_concat, ← h.count,
      ← Pattern.text_parse hparse]
    congr 1
    split <;> rfl
  · rw [routesOf?_extend]
    simp only [List.mem_append, or_and_right, exists_or]
    by_cases hm : m' = m
    · rw [if_pos hm]
      exact iff_of_true rfl (.inr ⟨_, List.mem_singleton_self _, hm.symm⟩)
    · rw [if_neg hm, h.placed, or_iff_left]
      rintro ⟨call, hcall, rfl⟩
      rw [List.mem_singleton.1 hcall] at hm
      exact hm rfl
  · rw [List.forall_mem_append]
    exact ⟨h.supported, fun call hcall => by rwa [List.mem_singleton.1 hcall]⟩
  · rw [List.map_append, List.map_singleton, ← Pattern.text_parse hparse]
    refine List.nodup_append.2 ⟨h.distinct, List.pairwise_singleton _ _, fun a ha b hb => ?_⟩
    rintro rfl
    rw [List.mem_singleton.1 hb] at ha
    exact h.notMem_of_free hfree ha

theorem use (h : r.Holds calls) (u : Use) : (r.use u).Holds (noted calls u) := by
  cases u with
  | register call => exact h.register call
  | read q => exact h.read q

theorem uses (h : r.Holds calls) (us : List Use) : (r.uses us).Holds (us.foldl noted calls) := by
  induction us generalizing r calls with
  | nil => exact h
  | cons u us ih => exact ih (h.use u)

/-- The calls that succeed are those that would have without asking. -/
theorem noted_accepted (h : r.Holds calls) (us : List Use) :
    us.foldl noted calls = calls ++ r.accepted us := by
  induction us generalizing r calls with
  | nil => exact (List.append_nil calls).symm
  | cons u us ih =>
    rw [List.foldl_cons, ih (h.use u)]
    cases u with
    | read q => rfl
    | register call =>
      rw [accepted, noted, h.refusal?_eq]
      split
      · rw [List.append_assoc, List.singleton_append]
      · rfl

end Holds

end Router

end HttpRouting
