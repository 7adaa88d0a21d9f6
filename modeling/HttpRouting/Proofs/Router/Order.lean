import HttpRouting.Proofs.Router.Matching
import HttpRouting.Proofs.Router.Reads

/-!
# The order of registration

Trees and tables depend on the order in which routes are registered. Whether a path is matched does
not, since what was registered tells the patterns (`Router.Registered.texts_routes`). Where several
routes can answer, the order decides which one does, and nothing else.
-/

namespace HttpRouting

namespace Router

variable {r r' : Router} {pairs pairs' : List (Method × Text)}

/-- The routers that registrations lead to if all of them succeed, with what was registered, in
order. Tables may be built at any time. -/
inductive Registered : List (Method × Text) → Router → Prop
  | empty : Registered [] .empty
  | register {pairs : List (Method × Text)} {r : Router} (hr : Registered pairs r) (m : Method)
    (text : Text) (handlers : List Handler)
    (haccepted : (r.register m text handlers).refusal? = none) :
    Registered (pairs ++ [(m, text)]) (r.register m text handlers).state
  | build {pairs : List (Method × Text)} {r : Router} (hr : Registered pairs r) (m : Method) :
    Registered pairs (r.build m)
  | buildAll {pairs : List (Method × Text)} {r : Router} (hr : Registered pairs r) :
    Registered pairs r.buildAll

namespace Registered

theorem reachable (hr : Registered pairs r) : r.Reachable := by
  induction hr with
  | empty => exact .empty
  | register hr m text handlers haccepted ih => exact .register ih m text handlers
  | build hr m ih => exact .build ih m
  | buildAll hr ih => exact .buildAll ih

/-- The routes of a method are those that were registered for it, in order. -/
theorem texts_routes (hr : Registered pairs r) (m : Method) :
    (r.routesOf m).routes.map Route.text = (pairs.filter (·.1 = m)).map (·.2) := by
  induction hr with
  | empty => rfl
  | @register pairs r hr m' text handlers haccepted ih =>
    obtain ⟨p, hparse, hfree, hstate⟩ := hr.reachable.valid.register_accepted haccepted
    rw [hstate, hr.reachable.valid.routes_extend hparse hfree, List.map_append, ih,
      List.filter_append, List.map_append]
    congr 1
    by_cases hm : m = m'
    · subst hm
      simp [Route.text, Pattern.text_parse hparse]
    · simp [hm, Ne.symm hm]
  | @build pairs r hr m' ih => rw [(Alike.build r m').routes_eq, ih]
  | @buildAll pairs r hr ih => rw [(Alike.buildAll r).routes_eq, ih]

theorem mem_iff (hr : Registered pairs r) {m : Method} {text : Text} :
    (m, text) ∈ pairs ↔ ∃ e ∈ (r.routesOf m).routes, e.text = text := by
  rw [← List.mem_map, hr.texts_routes m]
  simp

/-- What was registered tells the patterns. -/
theorem patternsIn (hr : Registered pairs r) (hr' : Registered pairs' r')
    (hsub : ∀ x ∈ pairs, x ∈ pairs') (m : Method) :
    PatternsIn (r.routesOf m).routes (r'.routesOf m).routes := by
  refine hr.reachable.valid.patternsIn m hr'.reachable.valid fun e he => ?_
  exact hr'.mem_iff.1 (hsub _ (hr.mem_iff.2 ⟨e, he, rfl⟩))

/-- Routers in which the same methods and patterns are registered, in whatever order, match the same
requests, with a walkable route or without, advise on the same ones and allow the same methods. What
one of them answers with, the other could answer with too. -/
theorem order_irrelevant (hr : Registered pairs r) (hr' : Registered pairs' r')
    (hsame : ∀ x, x ∈ pairs ↔ x ∈ pairs') :
    (∀ m path unescape,
      (r.resolve m path unescape).isMatch = (r'.resolve m path unescape).isMatch ∧
      (r.resolve m path unescape).advisesSlash = (r'.resolve m path unescape).advisesSlash ∧
      (r.resolve m path unescape).isWalkable = (r'.resolve m path unescape).isWalkable ∧
      ∀ e params, (r.resolve m path unescape).found? = some (e, params) →
        ∃ e' : Route, e'.text = e.text ∧
          e'.Answers (r'.routesOf m).routes (Path.squeeze path) unescape params) ∧
    ∀ path, r.allowed path = r'.allowed path := by
  have hvalid := hr.reachable.valid
  have hvalid' := hr'.reachable.valid
  have hin := hr.patternsIn hr' fun x => (hsame x).1
  have hin' := hr'.patternsIn hr fun x => (hsame x).2
  have hmatch : ∀ m path unescape,
      (r.resolve m path unescape).isMatch = (r'.resolve m path unescape).isMatch := by
    intro m path unescape
    rw [Bool.eq_iff_iff, hvalid.isMatch_iff, hvalid'.isMatch_iff]
    exact ⟨(hin m).matched, (hin' m).matched⟩
  refine ⟨fun m path unescape => ⟨hmatch m path unescape, ?_, ?_, ?_⟩, ?_⟩
  · rw [Bool.eq_iff_iff, hvalid.advisesSlash_iff, hvalid'.advisesSlash_iff]
    exact and_congr (not_congr ⟨(hin m).matched, (hin' m).matched⟩) ⟨(hin m).walks, (hin' m).walks⟩
  · rw [Bool.eq_iff_iff, hvalid.isWalkable_iff, hvalid'.isWalkable_iff]
    exact ⟨(hin m).walks, (hin' m).walks⟩
  · intro e params hfound
    rw [found?_resolve] at hfound
    exact (hin m).answers (hin' m) (((hvalid.routesOf m).agrees _ unescape).answers hfound)
  · intro path
    unfold Router.allowed
    simp only [hmatch]

/-- Both of `/{a}` and `/{b}` take the path `/x`: the one that comes first answers, and no more than
that depends on the order. -/
theorem order_irrelevant_params : ∃ r r', Registered [(.get, ['/', '{', 'a', '}']),
      (.get, ['/', '{', 'b', '}'])] r ∧
    Registered [(.get, ['/', '{', 'b', '}']), (.get, ['/', '{', 'a', '}'])] r' ∧
    r.allowed ['/', 'x'] = r'.allowed ['/', 'x'] ∧
    (r.resolve .get ['/', 'x'] false).params = [⟨['a'], ['x']⟩] ∧
    (r'.resolve .get ['/', 'x'] false).params = [⟨['b'], ['x']⟩] := by
  have hr : Registered [(.get, ['/', '{', 'a', '}']), (.get, ['/', '{', 'b', '}'])] _ :=
    .register (.register .empty .get ['/', '{', 'a', '}'] [] rfl) .get ['/', '{', 'b', '}'] [] rfl
  have hr' : Registered [(.get, ['/', '{', 'b', '}']), (.get, ['/', '{', 'a', '}'])] _ :=
    .register (.register .empty .get ['/', '{', 'b', '}'] [] rfl) .get ['/', '{', 'a', '}'] [] rfl
  obtain ⟨-, hallowed⟩ := hr.order_irrelevant hr' fun x => by simp [or_comm]
  exact ⟨_, _, hr, hr', hallowed _, by decide, by decide⟩

end Registered

end Router

end HttpRouting
