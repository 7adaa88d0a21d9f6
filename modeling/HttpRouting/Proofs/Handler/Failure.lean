import HttpRouting.Proofs.Handler.Chain

/-!
# Failures

A failure is the last moment of its course: it passes through every loop and every script that is
still going on, and changes nothing on its way (`Course.failed_cases`). So the run that
`Run.recover` turns into an aborted request is the one right before the failure
(`Run.guarded_of_failed`), and where no handler fails it has nothing to do (`Run.guarded_of_ok`).
-/

namespace HttpRouting

namespace Run

/-- The run after some moments. -/
def past (r : Run) (ms : List Moment) : Run := ms.foldl (fun _ m => m.after) r

/-- The run with a failure recorded, and otherwise as it was. -/
def fail (r : Run) (message : Option Text) : Run := { r with failure := some ⟨message⟩ }

/-- The request after a failure: aborted with status 500, and one more error. -/
def failed (r : Run) (message : Option Text) : Run :=
  { r with
    failure := some ⟨message⟩
    exchange := { r.exchange with
      progress := .aborted
      status := some 500
      errors := r.exchange.errors ++ [.failure (message.getD "unknown panic".toList)] } }

theorem past_cons (r : Run) (m : Moment) (ms : List Moment) : r.past (m :: ms) = m.after.past ms :=
  rfl

theorem past_append (r : Run) (ms ms' : List Moment) : r.past (ms ++ ms') = (r.past ms).past ms' :=
  List.foldl_append

theorem failure_begin (r : Run) : r.begin.failure = r.failure := by
  unfold begin
  split <;> rfl

theorem recover_fail (r : Run) (message : Option Text) :
    (r.fail message).recover = r.failed message := rfl

theorem recover_of_ok {r : Run} (h : ¬ r.Failed) : r.recover = r := by
  unfold recover
  rw [Option.not_isSome_iff_eq_none.1 h]

end Run

open Run

/-- No handler fails. -/
def Calm (ms : List Moment) : Prop := ∀ m ∈ ms, ¬ m.after.Failed

/-- The last moment is a failure, and the only one. -/
def FailsAtEnd (r : Run) (ms : List Moment) (r' : Run) : Prop :=
  ∃ before message, ms = before ++ [.performed (.fail message) r'] ∧ Calm before ∧
    r' = (r.past before).fail message

variable {task : Task} {r r' r'' : Run} {m : Moment} {ms ms' : List Moment}

theorem Calm.nil : Calm [] := List.forall_mem_nil _

theorem Calm.cons (hm : ¬ m.after.Failed) (h : Calm ms) : Calm (m :: ms) :=
  List.forall_mem_cons.2 ⟨hm, h⟩

theorem Calm.append (h : Calm ms) (h' : Calm ms') : Calm (ms ++ ms') :=
  List.forall_mem_append.2 ⟨h, h'⟩

namespace FailsAtEnd

theorem failed (h : FailsAtEnd r ms r') : r'.Failed := by
  obtain ⟨before, message, -, -, rfl⟩ := h
  rfl

theorem cons (hm : ¬ m.after.Failed) (h : FailsAtEnd m.after ms r') :
    FailsAtEnd r (m :: ms) r' := by
  obtain ⟨before, message, rfl, hcalm, rfl⟩ := h
  exact ⟨m :: before, message, rfl, hcalm.cons hm, rfl⟩

theorem append (hms : Calm ms) (h : FailsAtEnd (r.past ms) ms' r') :
    FailsAtEnd r (ms ++ ms') r' := by
  obtain ⟨before, message, rfl, hcalm, rfl⟩ := h
  refine ⟨ms ++ before, message, (List.append_assoc ..).symm, hms.append hcalm, ?_⟩
  rw [past_append]

end FailsAtEnd

theorem Action.failed_cases {a : Action} (ha : a ≠ .next) (hr : ¬ r.Failed) :
    ¬ (a.perform id r).Failed ∨
      ∃ message, a = .fail message ∧ a.perform id r = r.fail message := by
  cases a with
  | next => exact absurd rfl ha
  | fail message => exact .inr ⟨message, rfl, rfl⟩
  | note | abort | abortWith | setStatus | set | attach => exact .inl hr

namespace Course

/-- Nothing changes between one moment and the next. -/
theorem past_eq (h : Course task r ms r') : r.past ms = r' := by
  induction h with
  | done | other _ | idle _ | complete _ _ => rfl
  | act _ _ _ ih ih' => rw [past_append, ih, ih']
  | actFailed _ _ ih | look _ ih | next _ ih => exact ih
  | again _ _ _ _ _ ih ih' => rw [past_cons, past_append]; exact (congrArg (past · _) ih).trans ih'
  | againFailed _ _ _ _ ih => exact ih

/-- A course ends without a failure, or with the first one. -/
theorem failed_cases (h : Course task r ms r') (hr : ¬ r.Failed) :
    ¬ r'.Failed ∧ Calm ms ∨ FailsAtEnd r ms r' := by
  induction h with
  | done => exact .inl ⟨hr, .nil⟩
  | act haction hok hrest ih ih' =>
    rcases ih hr with ⟨-, hcalm⟩ | hfails
    · rw [← haction.past_eq] at ih' hok
      rcases ih' hok with ⟨hok', hcalm'⟩ | hfails'
      · exact .inl ⟨hok', hcalm.append hcalm'⟩
      · exact .inr (hfails'.append hcalm)
    · exact absurd hfails.failed hok
  | actFailed _ hfailed ih =>
    rcases ih hr with ⟨hok, -⟩ | hfails
    · exact absurd hfailed hok
    · exact .inr hfails
  | look _ ih => exact ih hr
  | @next r r' ms hloop ih =>
    have hbegin : ¬ r.begin.Failed := by rwa [Failed, failure_begin]
    rcases ih hbegin with ⟨hok, hcalm⟩ | hfails
    · exact .inl ⟨hok, hcalm.cons hbegin⟩
    · exact .inr (hfails.cons hbegin)
  | @other a r ha =>
    rcases a.failed_cases ha hr with hok | ⟨message, rfl, hfail⟩
    · exact .inl ⟨hok, .cons hok .nil⟩
    · exact .inr ⟨[], message, rfl, .nil, hfail⟩
  | idle _ => exact .inl ⟨hr, .cons hr .nil⟩
  | complete _ _ => exact .inl ⟨hr, .cons hr .nil⟩
  | again _ _ hhandler hok _ ih ih' =>
    rcases ih hr with ⟨-, hcalm⟩ | hfails
    · rw [← hhandler.past_eq] at ih' hok
      rcases ih' hok with ⟨hok', hcalm'⟩ | hfails'
      · exact .inl ⟨hok', .cons hr (hcalm.append hcalm')⟩
      · exact .inr (.cons hr (hfails'.append hcalm))
    · exact absurd hfails.failed hok
  | againFailed _ _ _ hfailed ih =>
    rcases ih hr with ⟨hok, -⟩ | hfails
    · exact absurd hfailed hok
    · exact .inr (.cons hr hfails)

theorem exists_next (r : Run) : ∃ ms, Course (.action .next) r ms r.next := by
  have hnext : ∀ r' : Run, r'.stage.left ≤ r.stage.left →
      ∃ ms, Course .loop r'.begin ms (Run.next r') := by
    intro r' _
    exact exists_loop (Nat.le_of_eq r'.left_begin)
  exact exists_action hnext .next (Nat.le_refl r.stage.left)

end Course

/-- The moment of a failure is the last one. -/
theorem FailsAtEnd.eq_of_failed (h : FailsAtEnd r ms r') {before after : List Moment}
    (hms : ms = before ++ m :: after) (hm : m.after.Failed) :
    after = [] ∧ ∃ message, m = .performed (.fail message) r' ∧
      r' = (r.past before).fail message := by
  obtain ⟨before', message, rfl, hcalm, hr'⟩ := h
  rcases List.eq_nil_or_concat after with rfl | ⟨after, last, rfl⟩
  · obtain ⟨rfl, hlast⟩ := List.append_inj' hms rfl
    cases hlast
    exact ⟨rfl, message, rfl, hr'⟩
  · -- Otherwise the moment is among those before the last one, and they are calm.
    have hms' : before' ++ [.performed (.fail message) r'] = (before ++ m :: after) ++ [last] := by
      simpa using hms
    refine absurd hm (hcalm m ?_)
    rw [(List.append_inj' hms' rfl).1]
    exact List.mem_append_right _ List.mem_cons_self

namespace Run

theorem guarded_eq (x : Exchange) (handlers : List Handler) :
    guarded x handlers = (start x handlers).next.recover := rfl

theorem handlers_recover (r : Run) : r.recover.handlers = r.handlers := by
  unfold recover
  split <;> rfl

/-- The handlers of a run are those that it was started with. -/
theorem handlers_guarded (x : Exchange) (handlers : List Handler) :
    (guarded x handlers).handlers = handlers := by
  obtain ⟨ms, hms⟩ := Course.exists_next (start x handlers)
  rw [guarded_eq, handlers_recover]
  exact (hms.steps nofun).keep (P := (·.handlers = handlers))
    (fun _ _ hm hs => hm.handlers_eq.trans hs) rfl

variable {x : Exchange} {handlers : List Handler}

/-- Where no handler fails, the request is left as its handlers leave it. -/
theorem guarded_of_ok (h : Course (.action .next) (start x handlers) ms (start x handlers).next)
    (hcalm : Calm ms) : guarded x handlers = (start x handlers).next := by
  rcases h.failed_cases nofun with ⟨hok, -⟩ | ⟨before, message, rfl, -, hfail⟩
  · rw [guarded_eq, recover_of_ok hok]
  · have hlast := hcalm (.performed _ _) (List.mem_append_right _ List.mem_cons_self)
    rw [Moment.after, hfail] at hlast
    exact absurd rfl hlast

/-- A failure is the last moment, and what is left of the request is what it was right before,
aborted with status 500 and with one more error. -/
theorem guarded_of_failed
    (h : Course (.action .next) (start x handlers) ms (start x handlers).next)
    {before after : List Moment} (hms : ms = before ++ m :: after) (hm : m.after.Failed) :
    after = [] ∧ ∃ message,
      m = .performed (.fail message) (((start x handlers).past before).fail message) ∧
      guarded x handlers = ((start x handlers).past before).failed message := by
  rcases h.failed_cases nofun with ⟨-, hcalm⟩ | hfails
  · refine absurd hm (hcalm m ?_)
    rw [hms]
    exact List.mem_append_right _ List.mem_cons_self
  · obtain ⟨rfl, message, hlast, hfail⟩ := hfails.eq_of_failed hms hm
    rw [hfail] at hlast
    exact ⟨rfl, message, hlast, by rw [guarded_eq, hfail, recover_fail]⟩

end Run

end HttpRouting
