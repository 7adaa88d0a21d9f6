import HttpRouting.Proofs.Handler.Failure

/-!
# The onion of handlers

The order in which the actions of handlers are performed, told by recursion over the list of
handlers: a handler runs around those behind it (`Script.around`, `onion`). Where no handler fails,
the one loop over a shared counter that handlers enter again from within comes to the same
(`Run.next_onion`). The proof is an induction on the course of the run, in which a script and the
handlers that are left after it are told together (`Task.Plays`).
-/

namespace HttpRouting

open Run

/-! ## The order of actions -/

/-- Actions performed one after another, each with the run right after it, and the run at the
end. -/
structure Play where
  acts : List (Action × Run)
  run : Run

namespace Play

/-- Nothing is performed. -/
def rest (r : Run) : Play := ⟨[], r⟩

def act (a : Action) (r : Run) : Play := ⟨[(a, a.perform id r)], a.perform id r⟩

/-- One play, and another from where it ends. -/
def andThen (p : Play) (q : Run → Play) : Play := ⟨p.acts ++ (q p.run).acts, (q p.run).run⟩

end Play

/-- The actions of a script by itself: to call for the others does nothing. -/
def Script.alone : Script → Run → Play
  | .done, r => .rest r
  | .act .next more, r => more.alone r
  | .act a more, r => (Play.act a r).andThen more.alone
  | .look choose, r => (choose r.exchange).alone r

/-- The actions of a script with those of others inside: where it first calls for them while the
request is not aborted, or else at its end. -/
def Script.around (others : Run → Play) : Script → Run → Play
  | .done, r => others r
  | .act .next more, r =>
    if r.exchange.isAborted then more.around others r else (others r).andThen more.alone
  | .act a more, r => (Play.act a r).andThen (more.around others)
  | .look choose, r => (choose r.exchange).around others r

/-- Each handler around those behind it. An aborted request starts none; one that is not has been
completed once none is left. -/
def onion : List Handler → Run → Play
  | [], r => .rest (if r.exchange.isAborted then r else r.complete)
  | h :: others, r =>
    if r.exchange.isAborted then .rest r else h.around (onion others) r.advance

def Action.isAbort : Action → Bool
  | .abort | .abortWith _ => true
  | _ => false

/-- The script fails nowhere, whatever it finds. -/
def Script.Safe : Script → Prop
  | .done => True
  | .act a more => (∀ message, a ≠ .fail message) ∧ more.Safe
  | .look choose => ∀ x, (choose x).Safe

/-- Nothing that the task itself performs is a failure. -/
def Task.Safe : Task → Prop
  | .script s => s.Safe
  | .action a => ∀ message, a ≠ .fail message
  | .loop => True

/-- An action of a script, with the run right after it. -/
def Moment.performed? : Moment → Option (Action × Run)
  | performed a r => some (a, r)
  | called _ | started _ _ _ | returned _ => none

/-! ## Plays and moments -/

namespace Play

/-- The play starts with what is performed at the moments, and goes on as the other one. -/
structure Opens (p : Play) (ms : List Moment) (q : Play) : Prop where
  acts : p.acts = ms.filterMap Moment.performed? ++ q.acts
  run : p.run = q.run

variable {p q p' : Play} {r : Run} {m : Moment} {ms ms' : List Moment}

namespace Opens

theorem refl (p : Play) : p.Opens [] p := ⟨rfl, rfl⟩

theorem trans (h : p.Opens ms q) (h' : q.Opens ms' p') : p.Opens (ms ++ ms') p' where
  acts := by rw [h.acts, h'.acts, List.filterMap_append, List.append_assoc]
  run := h.run.trans h'.run

theorem cons (hm : m.performed? = none) (h : p.Opens ms q) : p.Opens (m :: ms) q where
  acts := by rw [List.filterMap_cons_none hm, h.acts]
  run := h.run

theorem act (a : Action) (r : Run) (q : Run → Play) :
    ((Play.act a r).andThen q).Opens [.performed a (a.perform id r)] (q (a.perform id r)) :=
  ⟨rfl, rfl⟩

theorem andThen (h : p.Opens ms (.rest r)) (q : Run → Play) : (p.andThen q).Opens ms (q r) := by
  obtain ⟨acts, run⟩ := p
  obtain ⟨hacts, rfl⟩ := h
  exact ⟨congrArg (· ++ _) (hacts.trans (List.append_nil _)), rfl⟩

end Opens

end Play

/-! ## Handlers that are left -/

namespace Run

/-- The handlers that have not been started. -/
def remaining (r : Run) : List Handler := r.handlers.drop r.started

/-- None of these handlers is to be started any more. -/
def Idle (r : Run) (handlers : List Handler) : Prop :=
  r.exchange.progress = .aborted ∨ r.exchange.progress = .completed ∧ handlers = []

variable {r : Run} {a : Action} {handlers : List Handler}

theorem isAborted_iff {x : Exchange} : x.isAborted = true ↔ x.progress = .aborted :=
  decide_eq_true_iff

theorem complete_of_completed (h : r.exchange.progress = .completed) : r.complete = r := by
  obtain ⟨x, handlers, started, log, failure⟩ := r
  obtain ⟨id, method, path, route, params, count, progress, status, store, errors⟩ := x
  cases h
  rfl

theorem handlers_begin (r : Run) : r.begin.handlers = r.handlers := by
  unfold begin
  split <;> rfl

theorem remaining_perform (ha : a ≠ .next) (r : Run) :
    (a.perform id r).remaining = r.remaining := by
  cases a with
  | next => exact absurd rfl ha
  | note | abort | abortWith | setStatus | set | attach | fail => rfl

theorem Idle.perform (h : r.Idle handlers) (ha : a ≠ .next) : (a.perform id r).Idle handlers := by
  rcases Action.stage_perform ha id r with hstage | hstage
  · have hprogress : (a.perform id r).exchange.progress = r.exchange.progress :=
      congrArg Stage.progress hstage
    rw [Idle, hprogress]
    exact h
  · exact .inl (congrArg Stage.progress hstage)

/-- The loop has been entered, and ended only if no handler is to be started. -/
def Entered (r : Run) : Prop := r.exchange.progress = .running ∨ r.Idle r.remaining

theorem remaining_of_some {h : Handler} (hsome : r.handlers[r.started]? = some h) :
    r.remaining = h :: r.advance.remaining := by
  obtain ⟨hlt, rfl⟩ := List.getElem?_eq_some_iff.1 hsome
  exact List.drop_eq_getElem_cons hlt

theorem remaining_of_none (hnone : r.handlers[r.started]? = none) : r.remaining = [] :=
  List.drop_eq_nil_iff.2 (List.getElem?_eq_none_iff.1 hnone)

theorem isAborted_of_running {x : Exchange} (h : x.progress = .running) : ¬ x.isAborted = true := by
  rw [isAborted_iff, h]
  exact nofun

theorem entered_iff : r.Entered ↔ r.stage.progress ≠ .pending ∧ r.stage.Settled := by
  have hremaining : r.remaining = [] ↔ r.handlers.length ≤ r.started := List.drop_eq_nil_iff
  show r.exchange.progress = .running ∨ (r.exchange.progress = .aborted ∨
    r.exchange.progress = .completed ∧ r.remaining = []) ↔ r.exchange.progress ≠ .pending ∧
      (r.exchange.progress = .completed → r.handlers.length ≤ r.started)
  rw [hremaining]
  cases r.exchange.progress <;> simp

end Run

section

variable {r : Run} {a : Action} {handlers : List Handler}

theorem Script.alone_act (ha : a ≠ .next) (more : Script) (r : Run) :
    (Script.act a more).alone r = (Play.act a r).andThen more.alone := by
  rw [alone]
  exact fun h => ha h

theorem Script.around_act (ha : a ≠ .next) (more : Script) (others : Run → Play) (r : Run) :
    (Script.act a more).around others r = (Play.act a r).andThen (more.around others) := by
  rw [around]
  exact fun h => ha h

theorem onion_of_idle (h : r.Idle handlers) : onion handlers r = .rest r := by
  rcases h with haborted | ⟨hcompleted, rfl⟩
  · have haborted := isAborted_iff.2 haborted
    cases handlers <;> rw [onion, if_pos haborted]
  · rw [onion, complete_of_completed hcompleted, ite_self]

/-- A script is performed by itself once no other handler is to be started. -/
theorem Script.around_of_idle (s : Script) (h : r.Idle handlers) :
    s.around (onion handlers) r = s.alone r := by
  induction s generalizing r with
  | done => exact onion_of_idle h
  | look choose ih => exact ih r.exchange h
  | act a more ih =>
    by_cases ha : a = .next
    · subst ha
      rw [around, alone, onion_of_idle h, ih h]
      exact ite_self _
    · have hmore := ih (h.perform ha)
      rw [around_act ha, alone_act ha]
      simp only [Play.andThen, Play.act, hmore]

/-- Once the request is aborted there is nothing to be put inside. -/
theorem Script.around_next (more : Script) (handlers : List Handler) (r : Run) :
    (Script.act .next more).around (onion handlers) r =
      (onion handlers r).andThen more.alone := by
  rw [around]
  split
  · next haborted =>
    have hidle : r.Idle handlers := .inl (isAborted_iff.1 haborted)
    rw [more.around_of_idle hidle, onion_of_idle hidle]
    rfl
  · rfl

end

/-! ## Courses -/

/-- The play of a task, with the handlers that are left inside, opens with what is performed at the
moments of a course. After a script or an action the play goes on; after the loop none is left. -/
def Task.Plays : Task → Run → List Moment → Run → Prop
  | .script s, r, ms, r' => (s.around (onion r.remaining) r).Opens ms (onion r'.remaining r')
  | .action a, r, ms, r' => ∀ more : Script,
    ((Script.act a more).around (onion r.remaining) r).Opens ms
      (more.around (onion r'.remaining) r')
  | .loop, r, ms, r' => (onion r.remaining r).Opens ms (.rest r') ∧ r'.Idle r'.remaining

namespace Course

variable {task : Task} {r r' : Run} {ms : List Moment}

theorem entered (h : Course task r ms r') (hr : r.Entered) : r'.Entered := by
  obtain ⟨hbegun, hsettled⟩ := entered_iff.1 hr
  have hsteps := h.steps fun _ => hbegun
  refine entered_iff.2 ⟨?_, ?_⟩
  · exact hsteps.keep (P := fun s => s.progress ≠ .pending) (fun _ _ h => h.ne_pending) hbegun
  · exact hsteps.keep (P := Stage.Settled) (fun _ _ => Stage.Step.settled) hsettled

theorem plays (h : Course task r ms r') (hr : r.Entered) (hok : ¬ r'.Failed) :
    task.Plays r ms r' := by
  induction h with
  | done => exact .refl _
  | act haction hok' _ ih ih' =>
    exact (ih hr hok' _).trans (ih' (haction.entered hr) hok)
  | actFailed _ hfailed _ => exact absurd hfailed hok
  | look _ ih => exact ih hr hok
  | @next r r' ms hloop ih =>
    have hbegin : r.begin = r := if_neg (entered_iff.1 hr).1
    rw [hbegin] at ih ⊢
    obtain ⟨hopens, hidle⟩ := ih hr hok
    intro more
    rw [more.around_next, more.around_of_idle hidle]
    exact .cons rfl (hopens.andThen more.alone)
  | @other a r ha =>
    intro more
    rw [Script.around_act ha, ← remaining_perform ha r]
    exact .act a r _
  | @idle r hidle =>
    have hr := hr.resolve_left hidle
    refine ⟨?_, hr⟩
    rw [onion_of_idle hr]
    exact .cons rfl (.refl _)
  | @complete r hrunning hnone =>
    have hremaining := remaining_of_none hnone
    refine ⟨?_, .inr ⟨rfl, hremaining⟩⟩
    rw [hremaining, onion, if_neg (isAborted_of_running hrunning)]
    exact .cons rfl (.refl _)
  | @again r r' r'' handler ms ms' hrunning hsome hhandler hok' hloop ih ih' =>
    have hadvance : r.advance.Entered := .inl hrunning
    obtain ⟨hopens, hidle⟩ := ih' (hhandler.entered hadvance) hok
    refine ⟨?_, hidle⟩
    rw [remaining_of_some hsome, onion, if_neg (isAborted_of_running hrunning)]
    exact .cons rfl ((ih hadvance hok').trans hopens)
  | againFailed _ _ _ hfailed _ => exact absurd hfailed hok

/-- Scripts without a failure in them do not fail. -/
theorem safe (h : Course task r ms r') (hhandlers : ∀ handler ∈ r.handlers, handler.Safe)
    (htask : task.Safe) (hr : ¬ r.Failed) : r'.handlers = r.handlers ∧ ¬ r'.Failed := by
  induction h with
  | done | idle _ | complete _ _ => exact ⟨rfl, hr⟩
  | act haction _ _ ih ih' =>
    obtain ⟨hsame, hok⟩ := ih hhandlers htask.1 hr
    rw [← hsame] at hhandlers ⊢
    exact ih' hhandlers htask.2 hok
  | actFailed _ _ ih => exact ih hhandlers htask.1 hr
  | look _ ih => exact ih hhandlers (htask _) hr
  | @next r r' ms hloop ih =>
    rw [← handlers_begin r] at hhandlers ⊢
    exact ih hhandlers trivial (by rwa [Failed, failure_begin])
  | @other a r ha =>
    cases a with
    | next => exact absurd rfl ha
    | fail message => exact absurd rfl (htask message)
    | note | abort | abortWith | setStatus | set | attach => exact ⟨rfl, hr⟩
  | again _ hsome _ _ _ ih ih' =>
    obtain ⟨hsame, hok⟩ := ih hhandlers (hhandlers _ (List.mem_of_getElem? hsome)) hr
    obtain ⟨hsame', hok'⟩ := ih' (hsame ▸ hhandlers) trivial hok
    exact ⟨hsame'.trans hsame, hok'⟩
  | againFailed _ hsome _ _ ih =>
    exact ih hhandlers (hhandlers _ (List.mem_of_getElem? hsome)) hr

end Course

/-! ## Aborts -/

theorem Action.aborted_perform (a : Action) (r : Run) :
    (a.perform id r).exchange.progress = .aborted ↔
      r.exchange.progress = .aborted ∨ a.isAbort = true := by
  cases a with
  | abort | abortWith => exact iff_of_true rfl (.inr rfl)
  | note | next | setStatus | set | attach | fail =>
    exact (or_iff_left Bool.false_ne_true).symm

namespace Play

/-- The request is aborted at the end if it was at the start, or if an action aborts it. -/
def Accounts (p : Play) (r : Run) : Prop :=
  p.run.exchange.progress = .aborted ↔
    r.exchange.progress = .aborted ∨ p.acts.any (·.1.isAbort) = true

theorem accounts_rest (r : Run) : (rest r).Accounts r := (or_iff_left Bool.false_ne_true).symm

theorem accounts_act (a : Action) (r : Run) : (act a r).Accounts r := by
  rw [Accounts, act, List.any_cons, List.any_nil, Bool.or_false]
  exact a.aborted_perform r

theorem Accounts.andThen {p : Play} {q : Run → Play} {r : Run} (h : p.Accounts r)
    (h' : (q p.run).Accounts p.run) : (p.andThen q).Accounts r := by
  unfold Accounts at h h' ⊢
  rw [Play.andThen, h', h, List.any_append, Bool.or_eq_true, or_assoc]

end Play

theorem Script.accounts_alone (s : Script) (r : Run) : (s.alone r).Accounts r := by
  induction s generalizing r with
  | done => exact Play.accounts_rest r
  | look choose ih => exact ih r.exchange r
  | act a more ih =>
    by_cases ha : a = .next
    · subst ha
      exact ih r
    · rw [alone_act ha]
      exact (Play.accounts_act a r).andThen (ih _)

theorem Script.accounts_around {others : Run → Play} (hothers : ∀ r, (others r).Accounts r)
    (s : Script) (r : Run) : (s.around others r).Accounts r := by
  induction s generalizing r with
  | done => exact hothers r
  | look choose ih => exact ih r.exchange r
  | act a more ih =>
    by_cases ha : a = .next
    · subst ha
      rw [around]
      split
      · exact ih r
      · exact (hothers r).andThen (more.accounts_alone _)
    · rw [around_act ha]
      exact (Play.accounts_act a r).andThen (ih _)

theorem accounts_onion (handlers : List Handler) (r : Run) : (onion handlers r).Accounts r := by
  induction handlers generalizing r with
  | nil =>
    rw [onion]
    split
    · exact Play.accounts_rest r
    · next h =>
      rw [isAborted_iff] at h
      exact iff_of_false nofun (not_or.2 ⟨h, Bool.false_ne_true⟩)
  | cons handler others ih =>
    rw [onion]
    split
    · exact Play.accounts_rest r
    · exact handler.accounts_around ih r.advance

namespace Run

/-- Handlers that do not fail, run by one call for them, perform the actions that the onion tells,
in its order, and leave the request as it does: aborted if one of the actions aborts it, and
completed otherwise. After an abort the handlers that have been started go on by themselves. -/
theorem next_onion {x : Exchange} (hfresh : x.progress = .pending) {handlers : List Handler}
    (hsafe : ∀ h ∈ handlers, h.Safe) :
    let r := start x handlers
    let p := onion handlers r.begin
    (r.next = p.run ∧ ¬ r.next.Failed) ∧
    ((∃ ms, Course (.action .next) r ms r.next) ∧ ∀ ms r', Course (.action .next) r ms r' →
      r' = p.run ∧ ms.filterMap Moment.performed? = p.acts) ∧
    r.next.exchange.progress = (if p.acts.any (·.1.isAbort) then .aborted else .completed) ∧
    ∀ (s : Script) (others : List Handler) (r' : Run), r'.exchange.isAborted = true →
      s.around (onion others) r' = s.alone r' := by
  intro r p
  have hbegin : r.begin = r.update ({ · with progress := .running }) := if_pos hfresh
  have hentered : r.begin.Entered := .inl (by rw [hbegin]; rfl)
  have hremaining : r.begin.remaining = handlers := by rw [hbegin]; rfl
  have hplays : ∀ ms r', Course (.action .next) r ms r' → ¬ r'.Failed ∧
      (r' = p.run ∧ ms.filterMap Moment.performed? = p.acts) ∧ r'.Idle r'.remaining := by
    intro ms r' h
    obtain ⟨-, hok⟩ := h.safe hsafe nofun nofun
    cases h with
    | next hloop =>
      obtain ⟨hopens, hidle⟩ := hloop.plays hentered hok
      rw [hremaining] at hopens
      have hcalled : p.Opens (.called r.begin :: _) (.rest r') := .cons rfl hopens
      exact ⟨hok, ⟨hcalled.run.symm, (hcalled.acts.trans (List.append_nil _)).symm⟩, hidle⟩
    | other ha => exact absurd rfl ha
  obtain ⟨ms, hms⟩ := Course.exists_next r
  obtain ⟨hok, ⟨hrun, -⟩, hidle⟩ := hplays ms _ hms
  refine ⟨⟨hrun, hok⟩, ⟨⟨ms, hms⟩, fun ms' r' h => (hplays ms' r' h).2.1⟩, ?_, ?_⟩
  · have haccounts : r.next.exchange.progress = .aborted ↔ p.acts.any (·.1.isAbort) = true := by
      have hrunning : r.begin.exchange.progress ≠ .aborted := by
        rw [hbegin]
        exact nofun
      rw [hrun]
      exact (accounts_onion handlers r.begin).trans (or_iff_right hrunning)
    rcases hidle with haborted | ⟨hcompleted, -⟩
    · rw [if_pos (haccounts.1 haborted), haborted]
    · rw [if_neg, hcompleted]
      rw [← haccounts, hcompleted]
      exact nofun
  · intro s others r' haborted
    exact s.around_of_idle (.inl (isAborted_iff.1 haborted))

/-- The second handler aborts the request before it calls for the third, which is not started. It
goes on itself, and then the first, whose second call does nothing. -/
theorem next_onion_nested : ∃ (x : Exchange) (handlers : List Handler),
    x.progress = .pending ∧ (∀ h ∈ handlers, h.Safe) ∧
    (start x handlers).next.log = [.count 1, .count 2, .count 3, .count 4] ∧
    (start x handlers).next.exchange.progress = .aborted := by
  have hsafe : ∀ h ∈ ([.act (.note (.count 1)) (.act .next (.act .next (.one (.note (.count 4))))),
      .act (.note (.count 2)) (.act .abort (.act .next
        (.look fun x => if x.isAborted then .one (.note (.count 3)) else .done))),
      .one (.note (.count 5))] : List Handler), h.Safe := by
    simp only [List.forall_mem_cons, Script.Safe, Script.one, ne_eq, reduceCtorEq,
      not_false_eq_true, implies_true, and_true, true_and, List.not_mem_nil, false_implies]
    intro x
    split
    · exact ⟨nofun, trivial⟩
    · trivial
  have hfresh : (Exchange.new ⟨0⟩ .get ['/'] none []).progress = .pending := rfl
  obtain ⟨⟨hrun, -⟩, -, hprogress, -⟩ := next_onion hfresh hsafe
  exact ⟨_, _, hfresh, hsafe, congrArg Run.log hrun, hprogress⟩

end Run

end HttpRouting
