import HttpRouting.Proofs.Router.History

/-!
# Fallback tables in use

A read builds tables and never gives one up, and it reports each table that it builds
(`Router.Query.builtTo`). Only a registration that succeeds gives a table up, that of its method.
Between two of them the table is built at most once (`Router.Holds.buildings_le_one`), and where
every table is built beforehand a read changes nothing at all (`Router.Prepared.read`).
-/

namespace HttpRouting

/-- Whether the event reports that a table was built. -/
def Event.isFallbackBuilt : Event → Bool
  | .fallbackBuilt _ => true
  | _ => false

theorem MethodRoutes.countP_buildEvents (t : MethodRoutes) :
    t.buildEvents.countP Event.isFallbackBuilt = t.built?.isNone.toNat := by
  unfold buildEvents
  cases t.built? <;> rfl

namespace Router

/-- Whether the table of a method is built. -/
def tabled (r : Router) (m : Method) : Bool := ((r.routesOf? m).bind (·.built?)).isSome

/-- Every table is built. -/
def Prepared (r : Router) : Prop := ∀ m t, r.routesOf? m = some t → t.built?.isSome = true

/-- How many tables are not built. -/
def unbuilt (r : Router) : Nat := r.methods.countP (·.2.built?.isNone)

variable {r r' r'' : Router} {m : Method} {events events' : List Event} {calls : List Call}

/-- The second router is the first with some tables built, each of which the events report. -/
structure BuiltTo (r : Router) (events : List Event) (r' : Router) : Prop where
  alike : r'.Alike r
  kept : ∀ m, r.tabled m = true → r'.tabled m = true
  count : events.countP Event.isFallbackBuilt + r'.unbuilt = r.unbuilt

/-! ## Building -/

/-- Replacing one place changes a count by what the two routes count for. -/
theorem countP_setRoutes {t : MethodRoutes} (p : Method × MethodRoutes → Bool) (t' : MethodRoutes)
    {l : List (Method × MethodRoutes)} (h : l.lookup m = some t) :
    (setRoutes m t' l).countP p + (p (m, t)).toNat = l.countP p + (p (m, t')).toNat := by
  obtain ⟨front, back, rfl, hfront⟩ := List.lookup_eq_some_iff.1 h
  have hset : setRoutes m t' (front ++ (m, t) :: back) = front ++ (m, t') :: back := by
    clear h
    induction front with
    | nil => exact if_pos rfl
    | cons e front ih =>
      obtain ⟨hne, hfront⟩ := List.forall_mem_cons.1 hfront
      have hne : e.1 ≠ m := fun h => by simp [h] at hne
      rw [List.cons_append, setRoutes, if_neg hne, ih hfront, List.cons_append]
  have hcons : ∀ t, ((m, t) :: back).countP p = back.countP p + (p (m, t)).toNat := fun t => by
    rw [List.countP_cons]
    cases p (m, t) <;> rfl
  rw [hset, List.countP_append, List.countP_append, hcons, hcons]
  omega

namespace BuiltTo

theorem refl (r : Router) (h : events.countP Event.isFallbackBuilt = 0) : r.BuiltTo events r :=
  ⟨.refl r, fun _ h => h, by rw [h, Nat.zero_add]⟩

theorem trans (h : r.BuiltTo events r') (h' : r'.BuiltTo events' r'') :
    r.BuiltTo (events ++ events') r'' where
  alike := h'.alike.trans h.alike
  kept m hm := h'.kept m (h.kept m hm)
  count := by rw [List.countP_append, Nat.add_assoc, h'.count, h.count]

theorem build (r : Router) (m : Method) : r.BuiltTo (r.buildEventsOf m) (r.build m) := by
  refine ⟨.build r m, fun m' hm' => ?_, ?_⟩
  · unfold Router.build
    cases h : r.routesOf? m with
    | none => exact hm'
    | some t =>
      rw [tabled, routesOf?, lookup_setRoutes]
      split
      · rfl
      · exact hm'
  · unfold Router.build buildEventsOf
    cases h : r.routesOf? m with
    | none => exact Nat.zero_add _
    | some t =>
      have hset := countP_setRoutes (·.2.built?.isNone) t.build h
      have hbuilt : t.build.built?.isNone = false := rfl
      simp only [Option.toList_some, List.flatMap_singleton, MethodRoutes.countP_buildEvents]
      simp only [hbuilt, Bool.toNat_false, Nat.add_zero] at hset
      rw [Nat.add_comm]
      exact hset

theorem buildAll (r : Router) : r.BuiltTo r.buildEvents r.buildAll := by
  refine ⟨.buildAll r, fun m hm => ?_, ?_⟩
  · rw [tabled, routesOf?_buildAll]
    rw [tabled] at hm
    cases h : r.routesOf? m with
    | none => rw [h] at hm; cases hm
    | some t => rfl
  · have hnone : r.buildAll.unbuilt = 0 := by
      rw [unbuilt, Router.buildAll, List.countP_map]
      exact List.countP_eq_zero.2 fun _ _ => Bool.false_ne_true
    rw [hnone, Nat.add_zero, buildEvents, unbuilt]
    induction r.methods with
    | nil => rfl
    | cons e l ih =>
      rw [List.flatMap_cons, List.countP_append, ih, List.countP_cons,
        MethodRoutes.countP_buildEvents, Nat.add_comm]
      cases e.2.built?.isNone <;> rfl

end BuiltTo

/-! ## Reading -/

theorem countP_events (m : Method) (path : Text) (x : Resolution) :
    (x.events m path).countP Event.isFallbackBuilt = 0 := by
  cases x <;> rfl

theorem builtTo_read (r : Router) (m : Method) (path : Text) (unescape : Bool) :
    r.BuiltTo (r.read m path unescape).events (r.read m path unescape).router := by
  have hends := countP_events m (Path.squeeze path) (r.resolve m path unescape)
  have hstarts : [Event.lookedUp m path].countP Event.isFallbackBuilt = 0 := rfl
  unfold read
  simp only
  split
  · exact (BuiltTo.refl r hstarts).trans ((BuiltTo.build r m).trans (.refl _ hends))
  · exact (BuiltTo.refl r hstarts).trans (.refl r hends)

theorem builtTo_readMethods (r : Router) (path : Text) (ms : List Method) :
    r.BuiltTo (readMethods path ms r).events (readMethods path ms r).router := by
  induction ms generalizing r with
  | nil => exact .refl r rfl
  | cons m ms ih => exact (r.builtTo_read m path false).trans (ih _)

/-- A read builds tables, reports each of them, and does nothing else. -/
theorem Query.builtTo (q : Query) (r : Router) :
    r.BuiltTo (q.read r).events (q.read r).router := by
  cases q with
  | resolve m path unescape => exact r.builtTo_read m path unescape
  | allowed path =>
    rw [Query.read, Reading.router_map, Reading.events_map, readAllowed]
    exact r.builtTo_readMethods path Method.supported
  | routes | unreachable | listing => exact .refl r rfl
  | fallback m => exact .build r m
  | prepare =>
    refine (BuiltTo.buildAll r).trans (.refl _ ?_)
    rw [List.countP_map]
    exact List.countP_eq_zero.2 fun _ _ => Bool.false_ne_true

theorem tabled_of_mem (hr : r.Valid) {t : MethodRoutes} (h : (m, t) ∈ r.methods) :
    r.tabled m = t.built?.isSome := by
  have hlookup : r.routesOf? m = some t := lookup_of_mem hr.distinct h
  rw [tabled, hlookup]
  rfl

theorem unbuilt_eq (hr : r.Valid) :
    r.unbuilt = (r.methods.map (·.1)).countP fun m => !r.tabled m := by
  rw [unbuilt, List.countP_map]
  refine List.countP_congr fun x hx => ?_
  rw [Function.comp_apply, tabled_of_mem hr hx, Option.not_isSome]

/-- A router reports as many tables as it has built. -/
theorem BuiltTo.countP_eq (h : r.BuiltTo events r') (hr : r.Valid) (hr' : r'.Valid) :
    events.countP Event.isFallbackBuilt =
      (r.methods.map (·.1)).countP fun m => !r.tabled m && r'.tabled m := by
  have hkeys : r'.methods.map (·.1) = r.methods.map (·.1) :=
    h.alike.congr (fun r => r.methods.map (·.1)) fun r => List.map_map
  have hsplit : (r.methods.map (·.1)).countP (fun m => !r.tabled m) =
      (r.methods.map (·.1)).countP (fun m => !r.tabled m && r'.tabled m) +
        (r.methods.map (·.1)).countP fun m => !r'.tabled m := by
    rw [List.countP_eq_countP_filter_add _ _ r'.tabled, List.countP_filter, List.countP_filter]
    congr 1
    refine List.countP_congr fun m _ => ?_
    cases hm : r.tabled m with
    | true => simp [h.kept m hm]
    | false => simp
  have hcount := h.count
  rw [unbuilt_eq hr, unbuilt_eq hr', hkeys, hsplit] at hcount
  omega

/-! ## Prepared routers -/

theorem prepared_buildAll (r : Router) : r.buildAll.Prepared := by
  intro m t h
  rw [routesOf?_buildAll] at h
  obtain ⟨t, -, rfl⟩ := Option.map_eq_some_iff.1 h
  rfl

namespace Prepared

theorem buildAll_eq (h : r.Prepared) (hr : r.Valid) : r.buildAll = r := by
  have hmethods : r.buildAll.methods = r.methods := by
    refine (List.map_congr_left ?_).trans (List.map_id _)
    rintro ⟨m, t⟩ hx
    obtain ⟨f, hf⟩ := Option.isSome_iff_exists.1 (h m t (lookup_of_mem hr.distinct hx))
    have hbuild : t.build = t := by
      rw [MethodRoutes.build, MethodRoutes.fallback, hf, Option.getD_some, ← hf]
    exact Prod.ext rfl hbuild
  have hrouter : r.buildAll = ⟨r.buildAll.methods, r.count, r.unreachable⟩ := rfl
  rw [hrouter, hmethods]

theorem unbuilt_eq_zero (h : r.Prepared) (hr : r.Valid) : r.unbuilt = 0 := by
  refine List.countP_eq_zero.2 fun x hx => ?_
  rw [← Option.not_isSome, h x.1 x.2 (lookup_of_mem hr.distinct hx)]
  exact Bool.false_ne_true

/-- Where every table is built, a read builds none and leaves the router as it is. -/
theorem read (h : r.Prepared) (hr : r.Reachable) (q : Query) :
    (q.read r).router = r ∧ (q.read r).events.countP Event.isFallbackBuilt = 0 := by
  have hbuilt := q.builtTo r
  have hcount := hbuilt.count
  rw [h.unbuilt_eq_zero hr.valid] at hcount
  obtain ⟨hcount, -⟩ := Nat.add_eq_zero_iff.1 hcount
  have hprepared : (q.read r).router.Prepared := by
    intro m t ht
    have hsome : (r.routesOf? m).isSome = true := by
      rw [← hbuilt.alike.isSome_routesOf?, ht]
      rfl
    obtain ⟨s, hs⟩ := Option.isSome_iff_exists.1 hsome
    have htabled : r.tabled m = true := by
      rw [tabled, hs]
      exact h m s hs
    have hkept := hbuilt.kept m htabled
    rw [tabled, ht] at hkept
    exact hkept
  refine ⟨?_, hcount⟩
  calc (q.read r).router = (q.read r).router.buildAll :=
        (hprepared.buildAll_eq (q.reachable_read hr).valid).symm
    _ = r.buildAll := hbuilt.alike
    _ = r := h.buildAll_eq hr.valid

end Prepared

/-! ## Between two registrations -/

/-- Whether a use builds the table of a method. -/
def builds (r : Router) (m : Method) (u : Use) : Bool := !r.tabled m && (r.use u).tabled m

/-- How often the table of a method is built. -/
def buildings (m : Method) : Router → List Use → Nat
  | _, [] => 0
  | r, u :: us => (r.builds m u).toNat + buildings m (r.use u) us

theorem accepted_cons (r : Router) (u : Use) (us : List Use) :
    r.accepted (u :: us) = r.accepted [u] ++ (r.use u).accepted us := by
  cases u with
  | read q => rfl
  | register call =>
    simp only [accepted]
    split <;> rfl

namespace Holds

/-- Nothing but a registration for the method gives its table up. -/
theorem tabled_use (h : r.Holds calls) (hm : r.tabled m = true) {u : Use}
    (hother : ∀ call ∈ r.accepted [u], call.method ≠ m) : (r.use u).tabled m = true := by
  cases u with
  | read q => exact (q.builtTo r).kept m hm
  | register call =>
    have hcases := h.reachable.valid.register_cases call.method call.pattern call.handlers
    simp only [accepted, Router.use] at hother ⊢
    rcases hcases with ⟨refusal, hregister⟩ | ⟨p, hparse, hfree, hregister⟩
    · rw [hregister]
      exact hm
    · rw [hregister] at hother ⊢
      have hne : m ≠ call.method := Ne.symm (hother call (by simp))
      rw [tabled, routesOf?_extend, if_neg hne]
      exact hm

theorem buildings_eq_zero (h : r.Holds calls) (hm : r.tabled m = true) {us : List Use}
    (hother : ∀ call ∈ r.accepted us, call.method ≠ m) : buildings m r us = 0 := by
  induction us generalizing r calls with
  | nil => rfl
  | cons u us ih =>
    rw [accepted_cons, List.forall_mem_append] at hother
    have hkept := h.tabled_use hm hother.1
    rw [buildings, ih (h.use u) hkept hother.2, builds, hm]
    rfl

/-- As long as no route is registered for a method, its table is built at most once. -/
theorem buildings_le_one (h : r.Holds calls) {us : List Use}
    (hother : ∀ call ∈ r.accepted us, call.method ≠ m) : buildings m r us ≤ 1 := by
  induction us generalizing r calls with
  | nil => exact Nat.zero_le 1
  | cons u us ih =>
    rw [accepted_cons, List.forall_mem_append] at hother
    rw [buildings]
    cases hm : (r.use u).tabled m with
    | true =>
      -- The table is there from now on, and the uses that follow build none.
      rw [(h.use u).buildings_eq_zero hm hother.2]
      exact Bool.toNat_le _
    | false =>
      rw [builds, hm, Bool.and_false]
      exact Nat.le_trans (Nat.le_of_eq (Nat.zero_add _)) (ih (h.use u) hother.2)

end Holds

end Router

end HttpRouting
