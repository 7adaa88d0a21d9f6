import HttpRouting.Proofs.Router.Registration
import HttpRouting.Router.Reading

/-!
# Reads

A read may build tables and changes nothing else. Two routers are alike if they differ in nothing
but the tables that have been built; then they give the same answers (`Router.Query.answer_congr`),
and a registration that one accepts is accepted by the other and leaves alike routers behind
(`Router.Alike.register`).
-/

namespace HttpRouting

theorem Reading.answer_map {α β : Type} (f : α → β) (x : Reading α) :
    (x.map f).answer = f x.answer := rfl

theorem Reading.router_map {α β : Type} (f : α → β) (x : Reading α) :
    (x.map f).router = x.router := rfl

theorem Reading.events_map {α β : Type} (f : α → β) (x : Reading α) :
    (x.map f).events = x.events := rfl

/-! ## Built tables -/

namespace MethodRoutes

variable {t t' : MethodRoutes}

theorem holds_congr (h : t.build = t'.build) (p : Pattern) : t.holds p = t'.holds p := by
  have htaken : t.taken = t'.taken := congrArg (·.taken) h
  rw [holds, holds, htaken]

theorem covering?_congr (h : t.build = t'.build) (p : Pattern) :
    t.covering? p = t'.covering? p := by
  have hroutes : t.routes = t'.routes := congrArg (·.routes) h
  rw [covering?, covering?, hroutes]

/-- An insertion gives the table up, so that it leaves no difference. -/
theorem insert_congr (h : t.build = t'.build) (r : Route) :
    (t.insert r).2 = (t'.insert r).2 ∧
      ((t.insert r).2 = none → (t.insert r).1 = (t'.insert r).1) := by
  have htree : t.tree = t'.tree := congrArg (·.tree) h
  have htaken : t.taken = t'.taken := congrArg (·.taken) h
  have hroutes : t.routes = t'.routes := congrArg (·.routes) h
  unfold insert
  rw [htree, htaken, hroutes]
  rcases t'.tree.insert r r.pattern.key with ⟨tree, _ | other⟩
  · exact ⟨rfl, fun _ => rfl⟩
  · exact ⟨rfl, nofun⟩

end MethodRoutes

namespace Router

variable {r r' r'' : Router} {m : Method}

theorem routesOf?_buildAll (r : Router) (m : Method) :
    r.buildAll.routesOf? m = (r.routesOf? m).map MethodRoutes.build :=
  lookup_map MethodRoutes.build r.methods

theorem map_setRoutes (f : MethodRoutes → MethodRoutes) (m : Method) (t : MethodRoutes)
    (l : List (Method × MethodRoutes)) :
    (setRoutes m t l).map (fun (m, t) => (m, f t)) =
      setRoutes m (f t) (l.map fun (m, t) => (m, f t)) := by
  induction l with
  | nil => rfl
  | cons e l ih =>
    obtain ⟨k, s⟩ := e
    by_cases hk : k = m
    · simp [setRoutes, hk]
    · simp [setRoutes, hk, ih]

/-- Routers that differ in nothing but the tables that have been built. -/
def Alike (r r' : Router) : Prop := r.buildAll = r'.buildAll

namespace Alike

theorem refl (r : Router) : r.Alike r := rfl

theorem symm (h : r.Alike r') : r'.Alike r := Eq.symm h

theorem trans (h : r.Alike r') (h' : r'.Alike r'') : r.Alike r'' := Eq.trans h h'

theorem of_methods (hmethods : r.buildAll.methods = r'.buildAll.methods)
    (hcount : r.count = r'.count) (hunreachable : r.unreachable = r'.unreachable) :
    r.Alike r' := by
  have hbuilt : r.buildAll = ⟨r'.buildAll.methods, r'.count, r'.unreachable⟩ := by
    rw [← hmethods, ← hcount, ← hunreachable]
    rfl
  exact hbuilt

theorem buildAll (r : Router) : r.buildAll.Alike r := of_methods List.map_map rfl rfl

theorem build (r : Router) (m : Method) : (r.build m).Alike r := by
  unfold Router.build
  cases h : r.routesOf? m with
  | none => rfl
  | some t =>
    have hlookup : r.buildAll.routesOf? m = some t.build := by
      rw [routesOf?_buildAll, h]
      rfl
    exact of_methods ((map_setRoutes ..).trans (setRoutes_of_lookup hlookup)) rfl rfl

theorem routesOf (h : r.Alike r') (m : Method) : (r.routesOf m).build = (r'.routesOf m).build := by
  have hgetD : ∀ r : Router,
      (r.routesOf m).build = (r.buildAll.routesOf? m).getD MethodRoutes.empty.build := fun r => by
    rw [routesOf?_buildAll]
    exact (Option.getD_map ..).symm
  rw [hgetD r, hgetD r', show r.buildAll = r'.buildAll from h]

theorem routes_eq (h : r.Alike r') (m : Method) :
    (r.routesOf m).routes = (r'.routesOf m).routes :=
  congrArg (·.routes) (h.routesOf m)

theorem count_eq (h : r.Alike r') : r.count = r'.count := congrArg (·.count) h

theorem unreachable_eq (h : r.Alike r') : r.unreachable = r'.unreachable :=
  congrArg (·.unreachable) h

theorem extend (h : r.Alike r') {e : Route} (he : ((r.routesOf m).insert e).2 = none) :
    (r.extend m e).Alike (r'.extend m e) := by
  have hinsert := (MethodRoutes.insert_congr (h.routesOf m) e).2 he
  have hmethods : (r.methods.map fun (m, t) => (m, t.build)) =
      r'.methods.map fun (m, t) => (m, t.build) := congrArg (·.methods) h
  unfold Alike Router.buildAll Router.extend
  simp only [map_setRoutes, hinsert, hmethods, h.count_eq, h.unreachable_eq,
    MethodRoutes.covering?_congr (h.routesOf m)]

theorem add (h : r.Alike r') (m : Method) (p : Pattern) (handlers : List Handler) :
    (r.add m p handlers).refusal? = (r'.add m p handlers).refusal? ∧
      ((r.add m p handlers).refusal? = none →
        (r.add m p handlers).state.Alike (r'.add m p handlers).state) := by
  have ht := h.routesOf m
  have hholds := MethodRoutes.holds_congr ht p
  have hinsert := (MethodRoutes.insert_congr ht ⟨p, handlers, r.count⟩).1
  refine ⟨?_, fun hnone => ?_⟩
  · rw [refusal?_add, refusal?_add, hholds, hinsert, h.count_eq]
  · obtain ⟨hfree, hadded⟩ := refusal?_add_eq_none.1 hnone
    have hfree' : (r'.routesOf m).holds p = false := hholds.symm.trans hfree
    have hadded' : ((r'.routesOf m).insert ⟨p, handlers, r'.count⟩).2 = none := by
      rw [← h.count_eq, ← hinsert]
      exact hadded
    rw [add_of_inserted hfree hadded, add_of_inserted hfree' hadded', ← h.count_eq]
    exact h.extend hadded

/-- Alike routers accept the same registrations, and stay alike. -/
theorem register (h : r.Alike r') (m : Method) (text : Text) (handlers : List Handler) :
    (r.register m text handlers).refusal? = (r'.register m text handlers).refusal? ∧
      ((r.register m text handlers).refusal? = none →
        (r.register m text handlers).state.Alike (r'.register m text handlers).state) := by
  unfold Router.register
  split
  · cases Pattern.parse text with
    | error fault => exact ⟨rfl, nofun⟩
    | ok p => exact h.add m p handlers
  · exact ⟨rfl, nofun⟩

end Alike

namespace Reachable

/-- The texts of the routes of a method differ, letter case aside. -/
theorem pairwise_text (hr : r.Reachable) (m : Method) :
    (r.routesOf m).routes.Pairwise fun a b => Text.lower a.text ≠ Text.lower b.text := by
  induction hr with
  | empty => exact .nil
  | @register r hr m' text handlers ih =>
    rcases hr.valid.register_cases m' text handlers with ⟨_, h⟩ | ⟨p, hparse, hfree, h⟩
    · rw [h]
      exact ih
    · rw [h, hr.valid.routes_extend hparse hfree]
      split
      · next hm =>
        subst hm
        refine List.pairwise_append.2 ⟨ih, List.pairwise_singleton _ _, ?_⟩
        intro a ha b hb heq
        rw [List.mem_singleton.1 hb] at heq
        have hholds :=
          (MethodRoutes.holds_iff (hr.valid.routesOf m).taken p).2 ⟨a, ha, heq⟩
        rw [hfree] at hholds
        cases hholds
      · rwa [List.append_nil]
  | @build r hr m' ih => rwa [(Alike.build r m').routes_eq]
  | @buildAll r hr ih => rwa [(Alike.buildAll r).routes_eq]

/-- A text tells the route of a method, letter case aside. -/
theorem eq_of_text (hr : r.Reachable) {e e' : Route} (he : e ∈ (r.routesOf m).routes)
    (he' : e' ∈ (r.routesOf m).routes) (htext : Text.lower e.text = Text.lower e'.text) :
    e = e' := by
  have hpairwise := List.pairwise_iff_getElem.1 (hr.pairwise_text m)
  obtain ⟨i, hi, rfl⟩ := List.getElem_of_mem he
  obtain ⟨j, hj, rfl⟩ := List.getElem_of_mem he'
  rcases Nat.lt_trichotomy i j with h | rfl | h
  · exact absurd htext (hpairwise i j hi hj h)
  · rfl
  · exact absurd htext.symm (hpairwise j i hj hi h)

end Reachable

/-! ## Answers -/

/-- What a reader may ask of a router. -/
inductive Query
  | resolve (method : Method) (path : Text) (unescape : Bool)
  | allowed (path : Text)
  | routes
  | unreachable
  | listing
  | fallback (method : Method)
  /-- Builds every table. -/
  | prepare

/-- What a router answers. -/
inductive Answer
  | resolution (x : Resolution)
  | methods (methods : List Method)
  | routes (routes : List (Method × Text))
  | unreachable (routes : List Unreachable)
  | listing (lines : List Text)
  | fallback (table? : Option Fallback)
  | prepared

/-- The read that a query stands for. -/
def Query.read : Query → Router → Reading Answer
  | .resolve m path unescape, r => (r.read m path unescape).map .resolution
  | .allowed path, r => (r.readAllowed path).map .methods
  | .routes, r => r.observe fun r => .routes r.routes
  | .unreachable, r => r.observe fun r => .unreachable r.unreachable
  | .listing, r => r.observe fun r => .listing r.listing
  | .fallback m, r => (r.readFallback m).map .fallback
  | .prepare, r => r.prepare.map fun _ => .prepared

theorem resolve_buildAll (r : Router) (m : Method) (path : Text) (unescape : Bool) :
    r.buildAll.resolve m path unescape = r.resolve m path unescape := by
  unfold resolve
  rw [routesOf?_buildAll]
  cases r.routesOf? m <;> rfl

theorem routes_buildAll (r : Router) : r.buildAll.routes = r.routes := by
  unfold routes buildAll
  rw [List.flatMap_map]
  rfl

theorem listing_buildAll (r : Router) : r.buildAll.listing = r.listing := by
  unfold listing
  congr 1
  funext m
  rw [routesOf?_buildAll]
  cases r.routesOf? m <;> rfl

theorem fallback?_buildAll (r : Router) (m : Method) : r.buildAll.fallback? m = r.fallback? m := by
  unfold fallback?
  rw [routesOf?_buildAll, Option.map_map]
  rfl

namespace Alike

/-- What does not depend on the tables that have been built is the same for alike routers. -/
theorem congr {α : Sort _} (h : r.Alike r') (f : Router → α) (hf : ∀ r, f r.buildAll = f r) :
    f r = f r' := by
  rw [← hf r, ← hf r', show r.buildAll = r'.buildAll from h]

theorem resolve (h : r.Alike r') (m : Method) (path : Text) (unescape : Bool) :
    r.resolve m path unescape = r'.resolve m path unescape :=
  h.congr (fun r => r.resolve m path unescape) fun r => resolve_buildAll r m path unescape

end Alike

theorem alike_read (r : Router) (m : Method) (path : Text) (unescape : Bool) :
    (r.read m path unescape).router.Alike r := by
  unfold read
  simp only
  split
  · exact Alike.build r m
  · exact Alike.refl r

/-- Asking one method after another builds tables on the way, and no answer depends on them. -/
theorem readMethods_spec (path : Text) (ms : List Method) (r : Router) :
    (readMethods path ms r).answer = ms.filter (fun m => (r.resolve m path false).isMatch) ∧
      (readMethods path ms r).router.Alike r := by
  induction ms generalizing r with
  | nil => exact ⟨rfl, Alike.refl r⟩
  | cons m ms ih =>
    have hfirst := alike_read r m path false
    obtain ⟨hanswer, halike⟩ := ih (r.read m path false).router
    refine ⟨?_, halike.trans hfirst⟩
    rw [readMethods, List.filter_cons]
    simp only [hanswer, hfirst.resolve]
    rfl

theorem answer_readAllowed (r : Router) (path : Text) :
    (r.readAllowed path).answer = r.allowed path := by
  rw [readAllowed, (readMethods_spec path Method.supported r).1]
  rfl

theorem alike_readAllowed (r : Router) (path : Text) : (r.readAllowed path).router.Alike r := by
  rw [readAllowed]
  exact (readMethods_spec path Method.supported r).2

namespace Query

/-- A read changes nothing but the tables that have been built. -/
theorem alike_read (q : Query) (r : Router) : (q.read r).router.Alike r := by
  cases q with
  | resolve m path unescape => exact Router.alike_read r m path unescape
  | allowed path =>
    rw [Query.read, Reading.router_map]
    exact alike_readAllowed r path
  | routes | unreachable | listing => exact Alike.refl r
  | fallback m => exact Alike.build r m
  | prepare => exact Alike.buildAll r

/-- A read leads to a router that registrations could have led to. -/
theorem reachable_read (q : Query) (hr : r.Reachable) : (q.read r).router.Reachable := by
  have hresolved : ∀ r : Router, r.Reachable → ∀ m path unescape,
      (r.read m path unescape).router.Reachable := by
    intro r hr m path unescape
    unfold Router.read
    simp only
    split
    · exact .build hr m
    · exact hr
  cases q with
  | resolve m path unescape => exact hresolved r hr m path unescape
  | allowed path =>
    rw [Query.read, Reading.router_map, readAllowed]
    -- One method is asked after another; which ones does not matter.
    generalize Method.supported = ms
    induction ms generalizing r with
    | nil => exact hr
    | cons m ms ih => exact ih (hresolved r hr m path false)
  | routes | unreachable | listing => exact hr
  | fallback m => exact .build hr m
  | prepare => exact .buildAll hr

/-- Alike routers give the same answers. -/
theorem answer_congr (q : Query) (h : r.Alike r') : (q.read r).answer = (q.read r').answer := by
  cases q with
  | resolve m path unescape => exact congrArg Answer.resolution (h.resolve m path unescape)
  | allowed path =>
    have hallowed : r.allowed path = r'.allowed path := by
      unfold Router.allowed
      simp only [h.resolve]
    rw [Query.read, Reading.answer_map, answer_readAllowed, hallowed, ← answer_readAllowed]
    rfl
  | routes => exact congrArg Answer.routes (h.congr Router.routes routes_buildAll)
  | unreachable => exact congrArg Answer.unreachable h.unreachable_eq
  | listing => exact congrArg Answer.listing (h.congr Router.listing listing_buildAll)
  | fallback m =>
    exact congrArg Answer.fallback (h.congr (·.fallback? m) fun r => fallback?_buildAll r m)
  | prepare => rfl

end Query

end Router

end HttpRouting
