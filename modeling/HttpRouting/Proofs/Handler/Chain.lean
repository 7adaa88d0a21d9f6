import HttpRouting.Proofs.Handler.Course

/-!
# Chains of handlers

What no handler can change, however it calls for the rest, stops the others or fails, and however
the request is called on from outside: handlers are started in order, each at most once; an aborted
request stays aborted and starts none; a call for the rest that returns leaves the request aborted
or completed; and it is completed only once all handlers have been started (`Run.chain_safe`). Each
follows from what a single step may do.
-/

namespace HttpRouting

/-- The handler that is started, with its number. -/
def Moment.start? : Moment → Option (Handler × Nat)
  | started h number _ => some (h, number)
  | called _ | performed _ _ | returned _ => none

/-- The handlers that are started, in this order. -/
def Moment.starts (ms : List Moment) : List (Handler × Nat) := ms.filterMap start?

def Moment.progress (m : Moment) : Progress := m.after.exchange.progress

/-- What the moments of a request keep to. -/
structure Orderly (handlers : List Handler) (ms : List Moment) : Prop where
  /-- The handlers that are started are the first ones, in order, each of them once. -/
  starts : Moment.starts ms <+: handlers.zipIdx
  /-- Once the request is aborted it stays so, and no handler is started any more. -/
  aborted : ms.Pairwise fun m m' =>
    m.progress = .aborted → m'.progress = .aborted ∧ m'.start? = none
  /-- A call for the rest that returns leaves the request aborted or completed. -/
  returned : ∀ r, .returned r ∈ ms →
    r.exchange.progress = .aborted ∨ r.exchange.progress = .completed
  /-- At each moment at which the request is completed, all handlers have been started. -/
  completed : ∀ before m after, ms = before ++ m :: after → m.progress = .completed →
    Moment.starts (before ++ [m]) = handlers.zipIdx

namespace Stage

variable {s s' : Stage} {m : Moment} {ms : List Moment}

theorem Step.starts (h : s.Step m) :
    s.handlers.zipIdx.take m.after.stage.started =
      s.handlers.zipIdx.take s.started ++ m.start?.toList := by
  cases h with
  | called hr => rw [Moment.after, hr]; split <;> exact (List.append_nil _).symm
  | @started h r _ hsome hr =>
    have hnumbered : s.handlers.zipIdx[s.started]? = some (h, s.started) := by
      rw [List.getElem?_zipIdx, hsome, Nat.zero_add]
      rfl
    rw [Moment.after, hr, List.take_add_one, hnumbered]
    rfl
  | performed hr =>
    rcases hr with hr | hr <;> rw [Moment.after, hr] <;> exact (List.append_nil _).symm
  | idle _ hr | complete _ _ hr => rw [Moment.after, hr]; exact (List.append_nil _).symm

/-- The handlers that are started come right after those that have been. -/
theorem Steps.starts (h : Steps s ms s') :
    s.handlers.zipIdx.take s'.started = s.handlers.zipIdx.take s.started ++ Moment.starts ms := by
  induction h with
  | nil => exact (List.append_nil _).symm
  | @cons s s' m ms hm _ ih =>
    have hcons : Moment.starts (m :: ms) = m.start?.toList ++ Moment.starts ms := by
      unfold Moment.starts
      cases hstart : m.start? <;> simp [hstart]
    rw [hm.handlers_eq] at ih
    rw [ih, hm.starts, hcons, List.append_assoc]

/-- A completed request has no handlers left. -/
def Settled (s : Stage) : Prop := s.progress = .completed → s.handlers.length ≤ s.started

theorem Step.settled (h : s.Step m) (hs : s.Settled) : m.after.stage.Settled := by
  cases h with
  | called hr =>
    rw [Moment.after, hr]
    split
    · intro hcompleted
      cases hcompleted
    · exact hs
  | started hrunning _ hr =>
    rw [Moment.after, hr]
    intro hcompleted
    cases hrunning.symm.trans hcompleted
  | performed hr =>
    rcases hr with hr | hr <;> rw [Moment.after, hr]
    · exact hs
    · intro hcompleted
      cases hcompleted
  | idle _ hr => rwa [Moment.after, hr]
  | complete _ hnone hr =>
    rw [Moment.after, hr]
    intro _
    exact List.getElem?_eq_none_iff.1 hnone

theorem Step.aborted (h : s.Step m) (hs : s.progress = .aborted) :
    m.after.stage.progress = .aborted ∧ m.start? = none := by
  cases h with
  | called hr =>
    rw [Moment.after, hr, hs]
    exact ⟨hs, rfl⟩
  | started hrunning _ _ | complete hrunning _ _ => cases hs.symm.trans hrunning
  | performed hr =>
    rcases hr with hr | hr <;> rw [Moment.after, hr]
    · exact ⟨hs, rfl⟩
    · exact ⟨rfl, rfl⟩
  | idle _ hr =>
    rw [Moment.after, hr]
    exact ⟨hs, rfl⟩

theorem Step.returned {r : Run} (h : s.Step (.returned r)) :
    r.exchange.progress = .aborted ∨ r.exchange.progress = .completed := by
  show r.stage.progress = .aborted ∨ r.stage.progress = .completed
  cases h with
  | idle hidle hr => rwa [hr]
  | complete _ _ hr =>
    rw [hr]
    exact .inr rfl

/-- Each moment is a step from where those before it lead. -/
theorem Steps.step_of_mem (h : Steps s ms s') (hm : m ∈ ms) : ∃ t : Stage, t.Step m := by
  induction h with
  | nil => cases hm
  | cons hstep _ ih =>
    rcases List.mem_cons.1 hm with rfl | hm
    · exact ⟨_, hstep⟩
    · exact ih hm

theorem Steps.aborted (h : Steps s ms s') (hs : s.progress = .aborted) :
    ∀ m ∈ ms, m.progress = .aborted ∧ m.start? = none := by
  induction h with
  | nil => exact List.forall_mem_nil _
  | cons hm _ ih =>
    obtain ⟨hprogress, hstart⟩ := hm.aborted hs
    rintro m (_ | ⟨_, hmem⟩)
    · exact ⟨hprogress, hstart⟩
    · exact ih hprogress m hmem

theorem Steps.pairwise_aborted (h : Steps s ms s') :
    ms.Pairwise fun m m' => m.progress = .aborted → m'.progress = .aborted ∧ m'.start? = none := by
  induction h with
  | nil => exact .nil
  | cons _ hms ih => exact .cons (fun m' hm' haborted => hms.aborted haborted m' hm') ih

/-- Steps from the start of a request are orderly. -/
theorem Steps.orderly (h : Steps s ms s') (hstarted : s.started = 0) (hs : s.Settled) :
    Orderly s.handlers ms where
  starts := by
    have hstarts := h.starts
    rw [hstarted, List.take_zero, List.nil_append] at hstarts
    rw [← hstarts]
    exact List.take_prefix _ _
  aborted := h.pairwise_aborted
  returned := by
    intro r hr
    obtain ⟨_, hstep⟩ := h.step_of_mem hr
    exact hstep.returned
  completed := by
    -- The steps up to this moment leave the request settled, and so without handlers to start.
    rintro before m after rfl hcompleted
    obtain ⟨t, hbefore, hafter⟩ := h.split
    cases hafter with
    | cons hstep _ =>
      have hupto := hbefore.append (.cons hstep .nil)
      have hstarts := hupto.starts
      rw [hstarted, List.take_zero, List.nil_append] at hstarts
      have hsettled := hupto.keep (P := Settled) (fun _ _ => Step.settled) hs
      have hhandlers := hupto.keep (P := (·.handlers = s.handlers))
        (fun _ _ hm hs => hm.handlers_eq.trans hs) rfl
      have hall := hsettled hcompleted
      rw [hhandlers] at hall
      rw [← hstarts]
      exact List.take_of_length_le (by rwa [List.length_zipIdx])

end Stage

namespace Run

/-- The handlers of a request, whatever they do, and whatever calls are made from outside, failures
forgotten in between: the calls have exactly one course, and it is orderly. -/
theorem chain_safe (id : RequestId) (method : Method) (path : Text) (route : Option Text)
    (params : Params) (handlers : List Handler) (calls : List Script) :
    let r := start (.new id method path route params) handlers
    ∃ ms, Courses calls r ms (calls.foldl step r) ∧
      (∀ ms' r', Courses calls r ms' r' → ms' = ms ∧ r' = calls.foldl step r) ∧
      Orderly handlers ms := by
  intro r
  obtain ⟨ms, hms⟩ := Courses.exists_foldl calls r
  exact ⟨ms, hms, fun ms' r' h => hms.unique h, hms.steps.orderly rfl nofun⟩

end Run

end HttpRouting
