import HttpRouting.Proofs.Router.Matching
import HttpRouting.Proofs.Service.Steps

/-!
# Allowed methods

The methods that a 405 names are those that the same path would be handled for
(`Service.Reachable.allow_exact`). They are looked up without decoding; whether a path is matched
does not depend on it (`Router.Valid.isMatch_congr`).
-/

namespace HttpRouting

/-- A route handled the request. -/
def Outcome.isHandled : Outcome → Bool
  | .handled _ => true
  | .redirect .. | .methodNotAllowed .. | .notFound _ => false

namespace Service

variable {s : Service} {m : Method} {path : Text} {id : RequestId}

theorem isHandled_eq (s : Service) (m : Method) (path : Text) (id : RequestId) :
    (s.respond m path id).outcome.isHandled = (s.resolve m path).isMatch := by
  rw [Resolution.isMatch]
  rcases s.outcome_cases m path id with ⟨e, params, hfound, h⟩ | ⟨hfound, h | ⟨-, h⟩ | ⟨-, h⟩⟩ <;>
    rw [h, hfound] <;> rfl

namespace Reachable

/-- The router allows the methods that the path would be handled for. -/
theorem allowed_eq (hs : s.Reachable) (path : Text) (ids : Method → RequestId) :
    s.router.current.allowed path =
      Method.supported.filter fun m => (s.respond m path (ids m)).outcome.isHandled := by
  unfold Router.allowed
  congr 1
  funext m
  rw [isHandled_eq]
  exact hs.current.valid.isMatch_congr m path false hs.current.valid (.refl _) (.refl _) _

theorem notMem_allowed (hs : s.Reachable)
    (hunhandled : (s.respond m path id).outcome.isHandled = false) :
    m ∉ s.router.current.allowed path := by
  rw [hs.allowed_eq path fun _ => id, List.mem_filter, hunhandled]
  exact fun h => Bool.false_ne_true h.2

/-- Where allowed methods are reported, a request that is neither handled nor redirected is not
found exactly if no method would be handled for its path. Otherwise the answer names the methods
that would be, in the order of the supported ones, each once and never its own. -/
theorem allow_exact (hs : s.Reachable) (hreport : s.settings.reportAllowed = true) (m : Method)
    (path : Text) (id : RequestId)
    (hunhandled : (s.respond m path id).outcome.isHandled = false)
    (hdirect : (s.respond m path id).outcome.location? = none) (ids : Method → RequestId) :
    let handled := Method.supported.filter fun m' => (s.respond m' path (ids m')).outcome.isHandled
    ((∃ run, (s.respond m path id).outcome = .notFound run) ↔ handled = []) ∧
    (handled ≠ [] → ∃ run, (s.respond m path id).outcome = .methodNotAllowed handled run) ∧
    handled.Nodup ∧ m ∉ handled := by
  intro handled
  have hallowed : s.router.current.allowed path = handled := hs.allowed_eq path ids
  have hown : m ∉ handled := hallowed ▸ hs.notMem_allowed hunhandled
  have hothers : s.others m path = handled := by
    rw [others, if_pos hreport, hallowed]
    refine List.filter_eq_self.2 fun m' hm' => decide_eq_true ?_
    rintro rfl
    exact hown hm'
  have hnodup : handled.Nodup := List.Pairwise.filter _ (by decide)
  rcases s.outcome_cases m path id with ⟨e, params, -, h⟩ | ⟨-, h | ⟨hnone, h⟩ | ⟨hsome, h⟩⟩
  · rw [h] at hunhandled
    cases hunhandled
  · rw [h] at hdirect
    cases hdirect
  · rw [hothers] at hnone
    exact ⟨iff_of_true ⟨_, h⟩ hnone, fun hne => absurd hnone hne, hnodup, hown⟩
  · rw [hothers] at hsome
    refine ⟨iff_of_false ?_ hsome, fun _ => ⟨_, hothers ▸ h⟩, hnodup, hown⟩
    rintro ⟨run, hrun⟩
    cases h.symm.trans hrun

/-- Where GET and PUT have `/x`, a PATCH request for it is told so. -/
theorem allow_exact_two : ∃ s run, Reachable s ∧ s.settings.reportAllowed = true ∧
    (s.respond .patch ['/', 'x'] ⟨0⟩).outcome = .methodNotAllowed [.get, .put] run := by
  have hr : Router.Reachable _ :=
    .register (.register .empty .put ['/', 'x'] []) .get ['/', 'x'] []
  have hs : Reachable _ := .ofRouter hr { reportAllowed := true }
  obtain ⟨-, hnamed, -, -⟩ := hs.allow_exact rfl .patch ['/', 'x'] ⟨0⟩ rfl rfl fun _ => ⟨1⟩
  obtain ⟨run, hrun⟩ := hnamed (by decide)
  exact ⟨_, run, hs, rfl, hrun⟩

end Reachable

end Service

end HttpRouting
