import HttpRouting.Handler.Run

/-!
# The course of a run

What happens when the handlers of a request run, one moment after the other: the actions of a
script, and the loop that starts the handlers that are left, which a handler may enter again from
within. Nothing bounds the loop here. Every task has one course nevertheless (`Course.unique`,
`Course.exists_loop`), and it leads where `Run.next` and `Run.step` do. What a single moment may
change is said once (`Stage.Step`).
-/

namespace HttpRouting

/-- Something that happens in a run, with the run right after it. -/
inductive Moment
  /-- A script asks for the handlers that are left. -/
  | called (after : Run)
  /-- The loop starts the handler of this number. -/
  | started (h : Handler) (number : Nat) (after : Run)
  /-- A script performs any other action. -/
  | performed (a : Action) (after : Run)
  /-- The loop that a script asked for ends without a failure. -/
  | returned (after : Run)

def Moment.after : Moment → Run
  | called r | started _ _ r | performed _ r | returned r => r

/-- What a run may be taken through. -/
inductive Task
  | script (s : Script)
  | action (a : Action)
  /-- Starting handlers as long as the request is running. -/
  | loop

namespace Run

/-- A failure ends whatever the run is taken through. -/
abbrev Failed (r : Run) : Prop := r.failure.isSome = true

/-- The run with the end of its handlers recorded. -/
def complete (r : Run) : Run := r.update ({ · with progress := .completed })

/-- The run with an empty log, and past failures forgotten. -/
def refresh (r : Run) : Run := { r with log := [], failure := none }

end Run

open Run

/-- The moments that a task takes a run through, and the run at the end. -/
inductive Course : Task → Run → List Moment → Run → Prop
  | done {r : Run} : Course (.script .done) r [] r
  | act {a : Action} {rest : Script} {r r' r'' : Run} {ms ms' : List Moment}
    (haction : Course (.action a) r ms r') (hok : ¬ r'.Failed)
    (hrest : Course (.script rest) r' ms' r'') : Course (.script (.act a rest)) r (ms ++ ms') r''
  | actFailed {a : Action} {rest : Script} {r r' : Run} {ms : List Moment}
    (haction : Course (.action a) r ms r') (hfailed : r'.Failed) :
    Course (.script (.act a rest)) r ms r'
  | look {choose : Exchange → Script} {r r' : Run} {ms : List Moment}
    (hchosen : Course (.script (choose r.exchange)) r ms r') :
    Course (.script (.look choose)) r ms r'
  | next {r r' : Run} {ms : List Moment} (hloop : Course .loop r.begin ms r') :
    Course (.action .next) r (.called r.begin :: ms) r'
  | other {a : Action} {r : Run} (ha : a ≠ .next) :
    Course (.action a) r [.performed a (a.perform id r)] (a.perform id r)
  | idle {r : Run} (hidle : r.exchange.progress ≠ .running) : Course .loop r [.returned r] r
  | complete {r : Run} (hrunning : r.exchange.progress = .running)
    (hnone : r.handlers[r.started]? = none) : Course .loop r [.returned r.complete] r.complete
  | again {r r' r'' : Run} {h : Handler} {ms ms' : List Moment}
    (hrunning : r.exchange.progress = .running) (hsome : r.handlers[r.started]? = some h)
    (hhandler : Course (.script h) r.advance ms r') (hok : ¬ r'.Failed)
    (hloop : Course .loop r' ms' r'') :
    Course .loop r (.started h r.started r.advance :: (ms ++ ms')) r''
  | againFailed {r r' : Run} {h : Handler} {ms : List Moment}
    (hrunning : r.exchange.progress = .running) (hsome : r.handlers[r.started]? = some h)
    (hhandler : Course (.script h) r.advance ms r') (hfailed : r'.Failed) :
    Course .loop r (.started h r.started r.advance :: ms) r'

/-- The moments of scripts that are performed from outside, one after another. A failure ends its
script and is forgotten before the next one. -/
inductive Courses : List Script → Run → List Moment → Run → Prop
  | nil {r : Run} : Courses [] r [] r
  | cons {s : Script} {more : List Script} {r r' r'' : Run} {ms ms' : List Moment}
    (h : Course (.script s) r.refresh ms r') (hmore : Courses more r' ms' r'') :
    Courses (s :: more) r (ms ++ ms') r''

/-! ## Stages -/

/-- What decides which handlers are started. -/
structure Stage where
  handlers : List Handler
  started : Nat
  progress : Progress

def Run.stage (r : Run) : Stage := ⟨r.handlers, r.started, r.exchange.progress⟩

namespace Stage

/-- What a moment may do to the stage of a run. -/
inductive Step (s : Stage) : Moment → Prop
  | called {r : Run}
    (hr : r.stage = if s.progress = .pending then { s with progress := .running } else s) :
    Step s (.called r)
  | started {h : Handler} {r : Run} (hrunning : s.progress = .running)
    (hsome : s.handlers[s.started]? = some h) (hr : r.stage = { s with started := s.started + 1 }) :
    Step s (.started h s.started r)
  | performed {a : Action} {r : Run}
    (hr : r.stage = s ∨ r.stage = { s with progress := .aborted }) : Step s (.performed a r)
  | idle {r : Run} (hidle : s.progress = .aborted ∨ s.progress = .completed) (hr : r.stage = s) :
    Step s (.returned r)
  | complete {r : Run} (hrunning : s.progress = .running) (hnone : s.handlers[s.started]? = none)
    (hr : r.stage = { s with progress := .completed }) : Step s (.returned r)

inductive Steps : Stage → List Moment → Stage → Prop
  | nil {s : Stage} : Steps s [] s
  | cons {s s' : Stage} {m : Moment} {ms : List Moment} (h : s.Step m)
    (hms : Steps m.after.stage ms s') : Steps s (m :: ms) s'

variable {s s' s'' : Stage} {m : Moment} {ms ms' : List Moment}

theorem Steps.append (h : Steps s ms s') (h' : Steps s' ms' s'') : Steps s (ms ++ ms') s'' := by
  induction h with
  | nil => exact h'
  | cons hm _ ih => exact .cons hm (ih h')

theorem Steps.split (h : Steps s (ms ++ ms') s'') : ∃ s', Steps s ms s' ∧ Steps s' ms' s'' := by
  induction ms generalizing s with
  | nil => exact ⟨s, .nil, h⟩
  | cons m ms ih =>
    cases h with
    | cons hm h =>
      obtain ⟨s', hms, hms'⟩ := ih h
      exact ⟨s', .cons hm hms, hms'⟩

/-- A property that every step keeps holds in the end. -/
theorem Steps.keep {P : Stage → Prop} (hP : ∀ s m, s.Step m → P s → P m.after.stage)
    (h : Steps s ms s') (hs : P s) : P s' := by
  induction h with
  | nil => exact hs
  | cons hm _ ih => exact ih (hP _ _ hm hs)

theorem Step.handlers_eq (h : s.Step m) : m.after.stage.handlers = s.handlers := by
  cases h with
  | called hr => rw [Moment.after, hr]; split <;> rfl
  | started _ _ hr | complete _ _ hr | idle _ hr => rw [Moment.after, hr]
  | performed hr => rcases hr with hr | hr <;> rw [Moment.after, hr]

theorem Step.started_le (h : s.Step m) : s.started ≤ m.after.stage.started := by
  cases h with
  | called hr => rw [Moment.after, hr]; split <;> exact Nat.le_refl _
  | started _ _ hr => rw [Moment.after, hr]; exact Nat.le_succ _
  | complete _ _ hr | idle _ hr => exact hr ▸ Nat.le_refl _
  | performed hr => rcases hr with hr | hr <;> exact hr ▸ Nat.le_refl _

theorem Step.ne_pending (h : s.Step m) (hs : s.progress ≠ .pending) :
    m.after.stage.progress ≠ .pending := by
  cases h with
  | called hr => rwa [Moment.after, hr, if_neg hs]
  | started _ _ hr | idle _ hr => rwa [Moment.after, hr]
  | complete _ _ hr => rw [Moment.after, hr]; exact nofun
  | performed hr =>
    rcases hr with hr | hr <;> rw [Moment.after, hr]
    · exact hs
    · exact nofun

/-- An upper bound on the handlers that are still to be started. -/
def left (s : Stage) : Nat := s.handlers.length - s.started

theorem Steps.left_le (h : Steps s ms s') : s'.left ≤ s.left := by
  refine h.keep (P := fun t => t.left ≤ s.left) (fun t m hm ht => ?_) (Nat.le_refl _)
  refine Nat.le_trans ?_ ht
  rw [left, hm.handlers_eq]
  exact Nat.sub_le_sub_left hm.started_le _

end Stage

/-! ## Courses as steps -/

theorem Action.stage_perform {a : Action} (ha : a ≠ .next) (next : Run → Run) (r : Run) :
    (a.perform next r).stage = r.stage ∨
      (a.perform next r).stage = { r.stage with progress := .aborted } := by
  cases a with
  | next => exact absurd rfl ha
  | abort | abortWith status => exact .inr rfl
  | note | setStatus | set | attach | fail => exact .inl rfl

theorem Run.stage_begin (r : Run) :
    r.begin.stage = if r.stage.progress = .pending then { r.stage with progress := .running }
      else r.stage := by
  unfold begin
  split
  · next h => exact (if_pos h).symm
  · next h => exact (if_neg h).symm

theorem Run.left_begin (r : Run) : r.begin.stage.left = r.stage.left := by
  rw [stage_begin]
  split <;> rfl

theorem Run.progress_begin_ne (r : Run) : r.begin.stage.progress ≠ .pending := by
  rw [stage_begin]
  split
  · exact nofun
  · next h => exact h

namespace Course

open Stage

variable {task : Task} {r r' r'' : Run} {ms ms' : List Moment}

/-- Every moment of a course makes a step. The loop is entered only once the request has begun. -/
theorem steps (h : Course task r ms r') (hbegun : task = .loop → r.stage.progress ≠ .pending) :
    Steps r.stage ms r'.stage := by
  induction h with
  | done => exact .nil
  | act _ _ _ ih ih' => exact (ih nofun).append (ih' nofun)
  | actFailed _ _ ih => exact ih nofun
  | look _ ih => exact ih nofun
  | @next r _ _ _ ih => exact .cons (.called r.stage_begin) (ih fun _ => r.progress_begin_ne)
  | other ha => exact .cons (.performed (Action.stage_perform ha id _)) .nil
  | @idle r hidle =>
    -- The loop that was entered has begun the request, so it is not idle for being pending.
    refine .cons (.idle ?_ rfl) .nil
    have hpending := hbegun rfl
    rw [stage] at hpending ⊢
    cases hprogress : r.exchange.progress with
    | pending => exact absurd hprogress hpending
    | running => exact absurd hprogress hidle
    | aborted => exact .inl rfl
    | completed => exact .inr rfl
  | complete hrunning hnone => exact .cons (.complete hrunning hnone rfl) .nil
  | @again r r' _ _ _ _ hrunning hsome _ _ _ ih ih' =>
    have hhandler := ih nofun
    have hadvance : r.advance.stage.progress ≠ .pending := by
      rw [stage]
      exact fun h => nomatch hrunning.symm.trans h
    have hentered : r'.stage.progress ≠ .pending :=
      hhandler.keep (P := fun s => s.progress ≠ .pending) (fun _ _ h => h.ne_pending) hadvance
    exact .cons (.started hrunning hsome rfl) (hhandler.append (ih' fun _ => hentered))
  | againFailed hrunning hsome _ _ ih =>
    exact .cons (.started hrunning hsome rfl) (ih nofun)

/-- A task takes a run through one course only. -/
theorem unique (h : Course task r ms r') (h' : Course task r ms' r'') : ms' = ms ∧ r'' = r' := by
  -- Where the other course starts with another rule, the two ask opposite things of the same run.
  induction h generalizing ms' r'' with
  | done => cases h'; exact ⟨rfl, rfl⟩
  | act _ hok _ ih ih' =>
    cases h' with
    | act haction _ hrest =>
      obtain ⟨rfl, rfl⟩ := ih haction
      obtain ⟨rfl, rfl⟩ := ih' hrest
      exact ⟨rfl, rfl⟩
    | actFailed haction hfailed =>
      obtain ⟨rfl, rfl⟩ := ih haction
      exact absurd hfailed hok
  | actFailed _ hfailed ih =>
    cases h' with
    | act haction hok _ =>
      obtain ⟨rfl, rfl⟩ := ih haction
      exact absurd hfailed hok
    | actFailed haction _ => exact ih haction
  | look _ ih =>
    cases h' with
    | look hchosen => exact ih hchosen
  | next _ ih =>
    cases h' with
    | next hloop =>
      obtain ⟨rfl, rfl⟩ := ih hloop
      exact ⟨rfl, rfl⟩
    | other ha => exact absurd rfl ha
  | other ha =>
    cases h' with
    | next _ => exact absurd rfl ha
    | other _ => exact ⟨rfl, rfl⟩
  | idle hidle =>
    cases h' with
    | idle _ => exact ⟨rfl, rfl⟩
    | complete hrunning _ | again hrunning _ _ _ _ | againFailed hrunning _ _ _ =>
      exact absurd hrunning hidle
  | complete hrunning hnone =>
    cases h' with
    | idle hidle => exact absurd hrunning hidle
    | complete _ _ => exact ⟨rfl, rfl⟩
    | again _ hsome _ _ _ | againFailed _ hsome _ _ => cases hnone.symm.trans hsome
  | again hrunning hsome _ hok _ ih ih' =>
    cases h' with
    | idle hidle => exact absurd hrunning hidle
    | complete _ hnone => cases hnone.symm.trans hsome
    | again _ hsome' hhandler _ hloop =>
      cases hsome.symm.trans hsome'
      obtain ⟨rfl, rfl⟩ := ih hhandler
      obtain ⟨rfl, rfl⟩ := ih' hloop
      exact ⟨rfl, rfl⟩
    | againFailed _ hsome' hhandler hfailed =>
      cases hsome.symm.trans hsome'
      obtain ⟨rfl, rfl⟩ := ih hhandler
      exact absurd hfailed hok
  | againFailed hrunning hsome _ hfailed ih =>
    cases h' with
    | idle hidle => exact absurd hrunning hidle
    | complete _ hnone => cases hnone.symm.trans hsome
    | again _ hsome' hhandler hok _ =>
      cases hsome.symm.trans hsome'
      obtain ⟨rfl, rfl⟩ := ih hhandler
      exact absurd hfailed hok
    | againFailed _ hsome' hhandler _ =>
      cases hsome.symm.trans hsome'
      obtain ⟨rfl, rfl⟩ := ih hhandler
      exact ⟨rfl, rfl⟩

end Course

/-! ## Where courses lead -/

theorem Action.perform_eq {a : Action} (ha : a ≠ .next) (next next' : Run → Run) (r : Run) :
    a.perform next r = a.perform next' r := by
  cases a with
  | next => exact absurd rfl ha
  | note | abort | abortWith | setStatus | set | attach | fail => rfl

namespace Course

variable {next : Run → Run} {n : Nat}

theorem exists_action (hnext : ∀ r, r.stage.left ≤ n → ∃ ms, Course .loop r.begin ms (next r))
    (a : Action) {r : Run} (hr : r.stage.left ≤ n) :
    ∃ ms, Course (.action a) r ms (a.perform next r) := by
  by_cases ha : a = .next
  · subst ha
    obtain ⟨ms, hms⟩ := hnext r hr
    exact ⟨_, .next hms⟩
  · rw [Action.perform_eq ha next id]
    exact ⟨_, .other ha⟩

/-- A script has a course if each loop that it may ask for has one. -/
theorem exists_script (hnext : ∀ r, r.stage.left ≤ n → ∃ ms, Course .loop r.begin ms (next r))
    (s : Script) {r : Run} (hr : r.stage.left ≤ n) :
    ∃ ms, Course (.script s) r ms (s.run next r) := by
  induction s generalizing r with
  | done => exact ⟨[], .done⟩
  | act a rest ih =>
    obtain ⟨ms, haction⟩ := exists_action hnext a hr
    by_cases hfailed : (a.perform next r).Failed
    · simp only [Script.run, if_pos hfailed]
      exact ⟨ms, .actFailed haction hfailed⟩
    · obtain ⟨ms', hrest⟩ := ih (Nat.le_trans (haction.steps nofun).left_le hr)
      simp only [Script.run, if_neg hfailed]
      exact ⟨ms ++ ms', .act haction hfailed hrest⟩
  | look choose ih =>
    obtain ⟨ms, hchosen⟩ := ih r.exchange hr
    exact ⟨ms, .look hchosen⟩

/-- The loop ends where `Run.drain` does, given a bound on the handlers that are left. -/
theorem exists_loop {r : Run} (hr : r.stage.left ≤ n) : ∃ ms, Course .loop r ms (drain n r) := by
  -- A handler that is started lowers the bound, for the loops that it enters and for the one that
  -- goes on after it.
  induction n generalizing r with
  | zero =>
    unfold drain
    split
    · next hrunning =>
      have hnone : r.handlers[r.started]? = none :=
        List.getElem?_eq_none (Nat.le_of_sub_eq_zero (Nat.le_zero.1 hr))
      rw [hnone]
      exact ⟨_, .complete hrunning hnone⟩
    · next hidle => exact ⟨_, .idle hidle⟩
  | succ n ih =>
    unfold drain
    split
    · next hrunning =>
      split
      · next hnone => exact ⟨_, .complete hrunning hnone⟩
      · next h hsome =>
        have hadvance : r.advance.stage.left ≤ n := by
          have : r.handlers.length - r.started ≤ n + 1 := hr
          show r.handlers.length - (r.started + 1) ≤ n
          omega
        have hnext : ∀ r : Run, r.stage.left ≤ n →
            ∃ ms, Course .loop r.begin ms (drain n r.begin) := by
          intro r hr
          rw [← r.left_begin] at hr
          exact ih hr
        obtain ⟨ms, hhandler⟩ := exists_script hnext h hadvance
        by_cases hfailed : (h.run (fun r => drain n r.begin) r.advance).Failed
        · simp only [if_pos hfailed]
          exact ⟨_, .againFailed hrunning hsome hhandler hfailed⟩
        · obtain ⟨ms', hloop⟩ := ih (Nat.le_trans (hhandler.steps nofun).left_le hadvance)
          simp only [if_neg hfailed]
          exact ⟨_, .again hrunning hsome hhandler hfailed hloop⟩
    · next hidle => exact ⟨_, .idle hidle⟩

theorem exists_step (s : Script) (r : Run) : ∃ ms, Course (.script s) r.refresh ms (r.step s) := by
  refine exists_script ?_ s (Nat.le_refl r.refresh.stage.left)
  intro r _
  exact exists_loop (Nat.le_of_eq r.left_begin)

end Course

namespace Courses

variable {scripts : List Script} {r r' r'' : Run} {ms ms' : List Moment}

theorem exists_foldl (scripts : List Script) (r : Run) :
    ∃ ms, Courses scripts r ms (scripts.foldl Run.step r) := by
  induction scripts generalizing r with
  | nil => exact ⟨[], .nil⟩
  | cons s more ih =>
    obtain ⟨ms, h⟩ := Course.exists_step s r
    obtain ⟨ms', hmore⟩ := ih (r.step s)
    exact ⟨ms ++ ms', .cons h hmore⟩

theorem unique (h : Courses scripts r ms r') (h' : Courses scripts r ms' r'') :
    ms' = ms ∧ r'' = r' := by
  induction h generalizing ms' r'' with
  | nil => cases h'; exact ⟨rfl, rfl⟩
  | cons h _ ih =>
    cases h' with
    | cons h' hmore =>
      obtain ⟨rfl, rfl⟩ := h.unique h'
      obtain ⟨rfl, rfl⟩ := ih hmore
      exact ⟨rfl, rfl⟩

theorem steps (h : Courses scripts r ms r') : r.stage.Steps ms r'.stage := by
  induction h with
  | nil => exact .nil
  | cons h _ ih => exact (h.steps nofun).append ih

end Courses

end HttpRouting
