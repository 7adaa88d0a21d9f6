import HttpRouting.Proofs.Router.Tables
import Mathlib.Data.List.Forall2

/-!
# Routers that are copied and shared

Routers of one's own next to a router that is shared in versions: routes are registered in either,
routers are copied and published, and all of them are asked at any time. A `Ledger` keeps the
accepted calls of each router and nothing else. One step of a `World` is one step of its ledger
(`World.Keeps.step`), and what is asked or built beforehand leaves no trace there. So a table that
is built holds the registered routes, and no answer tells which tables are built
(`World.tables_unobserved`).
-/

namespace HttpRouting

/-! ## Lists of routers -/

section

variable {α β : Type} {R : α → β → Prop} {l : List α} {l' : List β}

private theorem rel_getElem? (h : List.Forall₂ R l l') (i : Nat) : Option.Rel R l[i]? l'[i]? := by
  induction h generalizing i with
  | nil => exact .none
  | cons hab h ih =>
    cases i with
    | zero => exact .some hab
    | succ i => exact ih i

private theorem rel_modify (h : List.Forall₂ R l l') {f : α → α} {g : β → β}
    (hfg : ∀ a b, R a b → R (f a) (g b)) (i : Nat) :
    List.Forall₂ R (l.modify i f) (l'.modify i g) := by
  induction h generalizing i with
  | nil => simp
  | cons hab h ih =>
    cases i with
    | zero => exact .cons (hfg _ _ hab) h
    | succ i => exact .cons hab (ih i)

private theorem getElem?_modify_some {a : α} {n : Nat} (h : l[n]? = some a) (i : Nat) (f : α → α) :
    (l.modify i f)[n]? = some (if i = n then f a else a) := by
  rw [List.getElem?_modify, h]
  rfl

private theorem modify_eq_of_forall {f : α → α} (h : ∀ a ∈ l, f a = a) (i : Nat) :
    l.modify i f = l := by
  refine List.ext_getElem? fun n => ?_
  cases hn : l[n]? with
  | none => simp [List.getElem?_modify, hn]
  | some a => rw [getElem?_modify_some hn, h a (List.mem_of_getElem? hn), ite_self]

private theorem rel_some {a : α} {o : Option β} (h : Option.Rel R (some a) o) :
    ∃ b, o = some b ∧ R a b := by
  cases h with
  | some hab => exact ⟨_, rfl, hab⟩

private theorem rel_toList {o : Option α} {o' : Option β} (h : Option.Rel R o o') :
    List.Forall₂ R o.toList o'.toList := by
  cases h with
  | some hab => exact .cons hab .nil
  | none => exact .nil

end

/-! ## Versions -/

namespace VersionedRouter

variable {v : VersionedRouter} {r : Router} {n : Nat}

/-- The published versions, oldest first. -/
def versions (v : VersionedRouter) : List Router := v.earlier ++ [v.current]

theorem length_versions (v : VersionedRouter) : v.versions.length = v.version + 1 := by
  simp [versions, version]

theorem getElem?_versions (v : VersionedRouter) (n : Nat) : v.versions[n]? = v.at? n :=
  (v.at?_eq n).symm

theorem versions_publish (v : VersionedRouter) (r : Router) :
    (v.publish r).versions = v.versions ++ [ready v.prebuild r] := rfl

/-- A router that is put back in its place changes nothing else. -/
theorem versions_setAt (hn : v.at? n = some r) (r' : Router) :
    (v.setAt n r').versions = v.versions.set n r' := by
  unfold at? at hn
  unfold setAt
  split at hn
  · next h =>
    rw [if_pos h, versions, versions, h, version, List.set_append_right _ _ (Nat.le_refl _),
      Nat.sub_self]
    rfl
  · next h =>
    rw [if_neg h, versions, versions, List.set_append_left _ _ (List.getElem?_eq_some_iff.1 hn).1]

theorem prebuild_setAt (v : VersionedRouter) (n : Nat) (r : Router) :
    (v.setAt n r).prebuild = v.prebuild := by
  unfold setAt
  split <;> rfl

/-- The current version is read like any other. -/
theorem read?_version {α : Type} (v : VersionedRouter) (f : Router → Reading α) :
    v.read? v.version f = some (v.read f) := by
  simp [read?, at?, setAt, read]

end VersionedRouter

namespace Session

variable {s : Session}

/-- The version behind a handle; without one, the current version. -/
def version? (s : Session) : Option Nat → Option Nat
  | none => some s.shared.version
  | some i => s.loaded[i]?

/-- The router behind a handle. -/
def seen? (s : Session) (handle? : Option Nat) : Option Router :=
  (s.version? handle?).bind s.shared.at?

theorem read?_eq (s : Session) (handle? : Option Nat) (q : Router.Query) :
    s.read? handle? q = (s.version? handle?).bind fun n => s.shared.read? n q.read := by
  cases handle? with
  | none => exact (s.shared.read?_version q.read).symm
  | some i => rfl

theorem answer?_eq (s : Session) (handle? : Option Nat) (q : Router.Query) :
    s.answer? handle? q = (s.seen? handle?).map fun r => (q.read r).answer := by
  rw [answer?, read?_eq, seen?]
  cases s.version? handle? with
  | none => rfl
  | some n =>
    simp only [Option.bind_some, VersionedRouter.read?, Option.map_map]
    rfl

/-- A read moves the router behind the handle, and nothing else. -/
theorem read_step (s : Session) (handle? : Option Nat) (q : Router.Query) :
    (s.step (.read handle? q)).shared.versions =
        (s.version? handle?).elim s.shared.versions
          (fun n => s.shared.versions.modify n (·.use (.read q))) ∧
      (s.step (.read handle? q)).shared.prebuild = s.shared.prebuild := by
  simp only [step, read?_eq]
  cases s.version? handle? with
  | none => exact ⟨rfl, rfl⟩
  | some n =>
    simp only [Option.bind_some, Option.elim_some, VersionedRouter.read?]
    cases hn : s.shared.at? n with
    | none =>
      refine ⟨?_, rfl⟩
      have hlen := List.getElem?_eq_none_iff.1 ((s.shared.getElem?_versions n).trans hn)
      exact (List.modify_eq_self hlen).symm
    | some r =>
      refine ⟨?_, s.shared.prebuild_setAt n _⟩
      have hset := VersionedRouter.versions_setAt hn (q.read r).router
      rw [Option.map_some]
      simp only [hset]
      rw [List.modify_eq_set_getElem?, s.shared.getElem?_versions, hn]
      rfl

theorem versions_register (s : Session) (call : Router.Call) :
    (s.step (.register call)).shared.versions = s.shared.versions ++
        (if (s.shared.current.register call.method call.pattern call.handlers).refusal?.isNone then
          [VersionedRouter.ready s.shared.prebuild (s.shared.current.use (.register call))]
        else []) ∧
      (s.step (.register call)).shared.prebuild = s.shared.prebuild := by
  have hrefusal := s.refusal?_register call
  simp only [step, ← hrefusal]
  by_cases h : (s.register call).refusal? = none
  · rw [register_accepted h, VersionedRouter.versions_publish, h]
    exact ⟨rfl, rfl⟩
  · rw [register_refused h, Option.isNone_eq_false_iff.2 (Option.isSome_iff_ne_none.2 h)]
    exact ⟨(List.append_nil _).symm, rfl⟩

end Session

/-! ## Many routers -/

/-- Routers of one's own, and one that is shared. -/
structure World where
  own : List Router
  session : Session

namespace World

/-- Where a router is found. -/
inductive Place
  | own (i : Nat)
  | version (n : Nat)

/-- What may happen. -/
inductive Step
  /-- A new router without routes. -/
  | create
  /-- A route is registered in a router of one's own, or the router is asked. -/
  | use (i : Nat) (u : Router.Use)
  | clone (i : Nat)
  /-- A copy of a version that was loaded, or of the current one. -/
  | cloneVersion (handle? : Option Nat)
  | register (call : Router.Call)
  /-- Publishes a copy of a router of one's own. -/
  | replace (i : Nat)
  | load
  | read (handle? : Option Nat) (q : Router.Query)

/-- The shared router starts as a router that was used before. -/
def start (us : List Router.Use) (prebuild : Bool) : World :=
  ⟨[], .start (Router.empty.uses us) prebuild⟩

def step (w : World) : Step → World
  | .create => { w with own := w.own ++ [.empty] }
  | .use i u => { w with own := w.own.modify i (·.use u) }
  | .clone i => { w with own := w.own ++ w.own[i]?.toList }
  | .cloneVersion handle? => { w with own := w.own ++ (w.session.seen? handle?).toList }
  | .register call => { w with session := w.session.step (.register call) }
  | .replace i =>
    match w.own[i]? with
    | some r => { w with session := w.session.step (.replace r) }
    | none => w
  | .load => { w with session := w.session.step .load }
  | .read handle? q => { w with session := w.session.step (.read handle? q) }

def run (w : World) (steps : List Step) : World := steps.foldl step w

def at? (w : World) : Place → Option Router
  | .own i => w.own[i]?
  | .version n => w.session.shared.at? n

/-- Who is asked: a router of one's own, or the shared one through a handle. -/
inductive Source
  | own (i : Nat)
  | shared (handle? : Option Nat)

def answer? (w : World) : Source → Router.Query → Option Router.Answer
  | .own i, q => w.own[i]?.map fun r => (q.read r).answer
  | .shared handle?, q => w.session.answer? handle? q

/-- What a step does with the router of a place. -/
def usesOf (w : World) : Place → Step → List Router.Use
  | .own i, .use j u => if j = i then [u] else []
  | .version n, .read handle? q => if w.session.version? handle? = some n then [.read q] else []
  | _, _ => []

/-- What becomes of the router of a place, one use after another. -/
def usesAt (w : World) (p : Place) : List Step → List Router.Use
  | [] => []
  | x :: steps => w.usesOf p x ++ (w.step x).usesAt p steps

variable {w : World} {p : Place} {r : Router}

/-- A router moves on by what is done with it; no other step touches it. -/
theorem at?_step (h : w.at? p = some r) (x : Step) :
    (w.step x).at? p = some (r.uses (w.usesOf p x)) := by
  cases p with
  | own i =>
    have hlt := (List.getElem?_eq_some_iff.1 h).1
    have happend : ∀ more, (w.own ++ more)[i]? = some r := fun more =>
      (List.getElem?_append_left hlt).trans h
    cases x with
    | create | clone j | cloneVersion handle? => exact happend _
    | use j u =>
      refine (getElem?_modify_some h j (·.use u)).trans (congrArg some ?_)
      by_cases hij : j = i <;> simp [usesOf, hij, Router.uses]
    | register call | load | read handle? q => exact h
    | replace j =>
      simp only [step, at?]
      cases w.own[j]? <;> exact h
  | version n =>
    have hn : w.session.shared.versions[n]? = some r :=
      (w.session.shared.getElem?_versions n).trans h
    have happend : ∀ more, (w.session.shared.versions ++ more)[n]? = some r := fun more =>
      (List.getElem?_append_left (List.getElem?_eq_some_iff.1 hn).1).trans hn
    cases x with
    | create | use j u | clone j | cloneVersion handle? => exact h
    | load => exact h
    | register call =>
      simp only [step, at?]
      rw [← VersionedRouter.getElem?_versions, (w.session.versions_register call).1]
      exact happend _
    | replace j =>
      simp only [step, at?]
      cases w.own[j]? with
      | none => exact h
      | some r' => exact (VersionedRouter.getElem?_versions _ n).symm.trans (happend _)
    | read handle? q =>
      simp only [step, at?, usesOf]
      rw [← VersionedRouter.getElem?_versions, (w.session.read_step handle? q).1]
      cases hversion : w.session.version? handle? with
      | none => exact hn
      | some n' =>
        refine (getElem?_modify_some hn n' (·.use (.read q))).trans (congrArg some ?_)
        by_cases hnn : n' = n <;> simp [hnn, Router.uses]

theorem at?_run (h : w.at? p = some r) (steps : List Step) :
    (w.run steps).at? p = some (r.uses (w.usesAt p steps)) := by
  induction steps generalizing w r with
  | nil => exact h
  | cons x steps ih =>
    rw [usesAt, Router.uses_append]
    exact ih (at?_step h x)

end World

/-! ## Ledgers -/

/-- The accepted calls of each router, and the versions that were loaded. -/
structure Ledger where
  own : List (List Router.Call)
  versions : List (List Router.Call)
  loaded : List Nat

namespace Ledger

def start (us : List Router.Use) : Ledger := ⟨[], [us.foldl Router.noted []], []⟩

def version? (l : Ledger) : Option Nat → Option Nat
  | none => some (l.versions.length - 1)
  | some i => l.loaded[i]?

def seen? (l : Ledger) (handle? : Option Nat) : Option (List Router.Call) :=
  (l.version? handle?).bind (l.versions[·]?)

/-- The calls of a new version, if one more call is accepted. -/
def registered? (l : Ledger) (call : Router.Call) : Option (List Router.Call) :=
  (l.seen? none).bind fun calls =>
    if Router.accepts calls call then some (calls ++ [call]) else none

def step (l : Ledger) : World.Step → Ledger
  | .create => { l with own := l.own ++ [[]] }
  | .use i u => { l with own := l.own.modify i (Router.noted · u) }
  | .clone i => { l with own := l.own ++ l.own[i]?.toList }
  | .cloneVersion handle? => { l with own := l.own ++ (l.seen? handle?).toList }
  | .register call => { l with versions := l.versions ++ (l.registered? call).toList }
  | .replace i => { l with versions := l.versions ++ l.own[i]?.toList }
  | .load => { l with loaded := l.loaded ++ [l.versions.length - 1] }
  | .read .. => l

def run (l : Ledger) (steps : List World.Step) : Ledger := steps.foldl step l

def at? (l : Ledger) : World.Place → Option (List Router.Call)
  | .own i => l.own[i]?
  | .version n => l.versions[n]?

def calls? (l : Ledger) : World.Source → Option (List Router.Call)
  | .own i => l.own[i]?
  | .shared handle? => l.seen? handle?

end Ledger

/-! ### Reads leave no trace -/

def Router.Use.isCall : Router.Use → Bool
  | .register _ => true
  | .read _ => false

def World.Step.isChange : World.Step → Bool
  | .use _ u => u.isCall
  | .read .. => false
  | _ => true

theorem Router.foldl_noted_filter (calls : List Router.Call) (us : List Router.Use) :
    (us.filter Use.isCall).foldl noted calls = us.foldl noted calls := by
  induction us generalizing calls with
  | nil => rfl
  | cons u us ih =>
    cases u with
    | register call => exact ih _
    | read q => exact ih calls

theorem Ledger.run_filter (l : Ledger) (steps : List World.Step) :
    l.run (steps.filter World.Step.isChange) = l.run steps := by
  induction steps generalizing l with
  | nil => rfl
  | cons x steps ih =>
    cases hx : x.isChange with
    | true =>
      rw [List.filter_cons_of_pos hx]
      exact ih (l.step x)
    | false =>
      have hstep : l.step x = l := by
        cases x with
        | read handle? q => rfl
        | use i u =>
          cases u with
          | register call => cases hx
          | read q =>
            show (⟨l.own.modify i id, l.versions, l.loaded⟩ : Ledger) = l
            rw [List.modify_id]
        | _ => cases hx
      rw [List.filter_cons_of_neg (Bool.eq_false_iff.1 hx), ih]
      show l.run steps = (l.step x).run steps
      rw [hstep]

/-! ## A world and its ledger -/

namespace World

variable {w : World} {l : Ledger}

/-- Each router holds what the ledger says. -/
structure Keeps (w : World) (l : Ledger) : Prop where
  own : List.Forall₂ Router.Holds w.own l.own
  versions : List.Forall₂ Router.Holds w.session.shared.versions l.versions
  loaded : w.session.loaded = l.loaded

theorem keeps_start (us : List Router.Use) (prebuild : Bool) :
    (start us prebuild).Keeps (Ledger.start us) :=
  ⟨.nil, .cons ((Router.holds_empty.uses us).ready prebuild) .nil, rfl⟩

namespace Keeps

theorem version?_eq (h : w.Keeps l) (handle? : Option Nat) :
    w.session.version? handle? = l.version? handle? := by
  cases handle? with
  | none =>
    have hlength := h.versions.length_eq
    rw [VersionedRouter.length_versions] at hlength
    simp only [Session.version?, Ledger.version?, ← hlength, Nat.add_sub_cancel]
  | some i => simp only [Session.version?, Ledger.version?, h.loaded]

theorem at? (h : w.Keeps l) (p : Place) : Option.Rel Router.Holds (w.at? p) (l.at? p) := by
  cases p with
  | own i => exact rel_getElem? h.own i
  | version n =>
    have hn := rel_getElem? h.versions n
    rwa [VersionedRouter.getElem?_versions] at hn

theorem seen? (h : w.Keeps l) (handle? : Option Nat) :
    Option.Rel Router.Holds (w.session.seen? handle?) (l.seen? handle?) := by
  rw [Session.seen?, Ledger.seen?, h.version?_eq]
  cases l.version? handle? with
  | none => exact .none
  | some n => exact h.at? (.version n)

theorem registered? (h : w.Keeps l) (call : Router.Call) :
    List.Forall₂ Router.Holds (w.session.step (.register call)).shared.versions
      (l.versions ++ (l.registered? call).toList) := by
  have hcurrent : Option.Rel Router.Holds (some w.session.shared.current) (l.seen? none) := by
    have hseen := h.seen? none
    rwa [Session.seen?, Session.version?, Option.bind_some, VersionedRouter.at?,
      if_pos rfl] at hseen
  obtain ⟨calls, hcalls, hholds⟩ := rel_some hcurrent
  have hregistered := hholds.register call
  rw [(w.session.versions_register call).1, Ledger.registered?, hcalls, hholds.refusal?_eq,
    Option.bind_some]
  refine List.rel_append h.versions ?_
  rw [Router.noted] at hregistered
  cases haccepts : Router.accepts calls call with
  | true =>
    rw [haccepts] at hregistered
    exact .cons (hregistered.ready _) .nil
  | false => exact .nil

/-- One step of a world is one step of its ledger. -/
theorem step (h : w.Keeps l) (x : Step) : (w.step x).Keeps (l.step x) := by
  cases x with
  | create => exact ⟨List.rel_append h.own (.cons Router.holds_empty .nil), h.versions, h.loaded⟩
  | use i u => exact ⟨rel_modify h.own (fun _ _ hholds => hholds.use u) i, h.versions, h.loaded⟩
  | clone i =>
    exact ⟨List.rel_append h.own (rel_toList (rel_getElem? h.own i)), h.versions, h.loaded⟩
  | cloneVersion handle? =>
    exact ⟨List.rel_append h.own (rel_toList (h.seen? handle?)), h.versions, h.loaded⟩
  | register call => exact ⟨h.own, h.registered? call, h.loaded⟩
  | replace i =>
    have hi := rel_getElem? h.own i
    simp only [World.step, Ledger.step]
    cases hown : w.own[i]? with
    | none =>
      rw [hown] at hi
      generalize l.own[i]? = o at hi ⊢
      cases hi
      exact ⟨h.own, by simpa using h.versions, h.loaded⟩
    | some r =>
      rw [hown] at hi
      obtain ⟨calls, hcalls, hholds⟩ := rel_some hi
      have hready := hholds.ready w.session.shared.prebuild
      rw [hcalls]
      exact ⟨h.own, List.rel_append h.versions (.cons hready .nil), h.loaded⟩
  | load =>
    refine ⟨h.own, h.versions, ?_⟩
    have hversion := Option.some.inj (h.version?_eq none)
    show w.session.loaded ++ [w.session.shared.version] = _
    rw [hversion, h.loaded]
    rfl
  | read handle? q =>
    refine ⟨h.own, ?_, (w.session.step_read handle? q).1.trans h.loaded⟩
    show List.Forall₂ _ (w.session.step (.read handle? q)).shared.versions l.versions
    rw [(w.session.read_step handle? q).1]
    cases w.session.version? handle? with
    | none => exact h.versions
    | some n =>
      have hread : List.Forall₂ Router.Holds _ (l.versions.modify n id) :=
        rel_modify h.versions (fun _ _ hholds => Router.Holds.use hholds (.read q)) n
      rwa [List.modify_id] at hread

theorem run (h : w.Keeps l) (steps : List Step) : (w.run steps).Keeps (l.run steps) := by
  induction steps generalizing w l with
  | nil => exact h
  | cons x steps ih => exact ih (h.step x)

/-- What is answered can be told from the ledger. -/
theorem answer?_eq (h : w.Keeps l) (source : Source) (q : Router.Query) :
    w.answer? source q =
      (l.calls? source).map fun calls => (q.read (Router.replay calls)).answer := by
  have hsource : ∀ {o : Option Router} {o' : Option (List Router.Call)},
      Option.Rel Router.Holds o o' → (o.map fun r => (q.read r).answer) =
        o'.map fun calls => (q.read (Router.replay calls)).answer := by
    intro o o' hrel
    cases hrel with
    | some hholds => exact congrArg some (q.answer_congr hholds.alike)
    | none => rfl
  cases source with
  | own i => exact hsource (rel_getElem? h.own i)
  | shared handle? =>
    rw [answer?, Session.answer?_eq]
    exact hsource (h.seen? handle?)

end Keeps

/-! ## Tables -/

theorem prebuild_step (w : World) (x : Step) :
    (w.step x).session.shared.prebuild = w.session.shared.prebuild := by
  cases x with
  | create | use i u | clone i | cloneVersion handle? | load => rfl
  | register call => exact (w.session.versions_register call).2
  | replace i =>
    simp only [step]
    cases w.own[i]? <;> rfl
  | read handle? q => exact (w.session.read_step handle? q).2

namespace Keeps

theorem exists_calls (h : w.Keeps l) {p : Place} {r : Router} (hr : w.at? p = some r) :
    ∃ calls, l.at? p = some calls ∧ r.Holds calls :=
  rel_some (hr ▸ h.at? p)

theorem reachable (h : w.Keeps l) {p : Place} {r : Router} (hr : w.at? p = some r) :
    r.Reachable := by
  obtain ⟨calls, -, hholds⟩ := h.exists_calls hr
  exact hholds.reachable

/-- A table that is built holds the routes of its method, as they were registered. -/
theorem built (h : w.Keeps l) {p : Place} {r : Router} (hr : w.at? p = some r) {m : Method}
    {t : MethodRoutes} (ht : r.routesOf? m = some t) {f : Fallback} (hf : t.built? = some f) :
    f.routes = t.routes ∧ ∃ calls, l.at? p = some calls ∧
      t.routes.map Route.entry = Router.entriesOf m calls := by
  obtain ⟨calls, hcalls, hholds⟩ := h.exists_calls hr
  have hentries := hholds.entries m
  rw [Router.routesOf, ht, Option.getD_some] at hentries
  exact ⟨(hholds.reachable.valid.valid m t ht).built f hf, calls, hcalls, hentries⟩

/-- Where tables are built before a version is published, no version lacks one. -/
theorem prepared_step (h : w.Keeps l) (hprebuild : w.session.shared.prebuild = true)
    (hprepared : ∀ r ∈ w.session.shared.versions, r.Prepared) (x : Step) :
    ∀ r ∈ (w.step x).session.shared.versions, r.Prepared := by
  have hready : ∀ r, ∀ r' ∈ [VersionedRouter.ready w.session.shared.prebuild r], r'.Prepared := by
    intro r r' hr'
    rw [List.mem_singleton.1 hr', hprebuild]
    exact Router.prepared_buildAll r
  cases x with
  | create | use i u | clone i | cloneVersion handle? | load => exact hprepared
  | register call =>
    simp only [World.step]
    rw [(w.session.versions_register call).1, List.forall_mem_append]
    refine ⟨hprepared, ?_⟩
    split
    · exact hready _
    · exact nofun
  | replace i =>
    simp only [World.step]
    cases w.own[i]? with
    | none => exact hprepared
    | some r => exact List.forall_mem_append.2 ⟨hprepared, hready r⟩
  | read handle? q =>
    simp only [World.step]
    rw [(w.session.read_step handle? q).1]
    cases w.session.version? handle? with
    | none => exact hprepared
    | some n =>
      -- Nothing is left to build, so that the read leaves every version as it is.
      have hsame : w.session.shared.versions.modify n (·.use (.read q)) =
          w.session.shared.versions := by
        refine modify_eq_of_forall (fun r hr => ?_) n
        obtain ⟨i, hi⟩ := List.mem_iff_getElem?.1 hr
        rw [VersionedRouter.getElem?_versions] at hi
        exact ((hprepared r hr).read (h.reachable (p := .version i) hi) q).1
      rw [Option.elim_some, hsame]
      exact hprepared

theorem prepared_run (h : w.Keeps l) (hprebuild : w.session.shared.prebuild = true)
    (hprepared : ∀ r ∈ w.session.shared.versions, r.Prepared) (steps : List Step) :
    ∀ r ∈ (w.run steps).session.shared.versions, r.Prepared := by
  induction steps generalizing w l with
  | nil => exact hprepared
  | cons x steps ih =>
    exact ih (h.step x) ((w.prebuild_step x).trans hprebuild)
      (h.prepared_step hprebuild hprepared x)

end Keeps

/-- What can be told of the tables of a world that some steps lead to, and of the answers, from the
calls that its ledger notes. -/
structure TablesUnobserved (us : List Router.Use) (prebuild : Bool) (steps : List Step) (w : World)
    (l : Ledger) : Prop where
  /-- A table that is built holds the routes that were registered for its method in its router, in
  order. -/
  built : ∀ p r m t f, w.at? p = some r → r.routesOf? m = some t → t.built? = some f →
    f.routes = t.routes ∧ ∃ calls, l.at? p = some calls ∧
      t.routes.map Route.entry = Router.entriesOf m calls
  /-- Every answer is that of a router that was given the same calls and never asked. -/
  answer : ∀ source q, w.answer? source q =
    (l.calls? source).map fun calls => (q.read (Router.replay calls)).answer
  /-- No answer tells whether tables are built before publishing, or what was read before. -/
  unread : ∀ us' prebuild' steps', us'.filter Router.Use.isCall = us.filter Router.Use.isCall →
    steps'.filter Step.isChange = steps.filter Step.isChange →
    ∀ source q, ((start us' prebuild').run steps').answer? source q = w.answer? source q
  /-- A router builds the table of a method at most once as long as it accepts no route for the
  method. -/
  once : ∀ p r later, w.at? p = some r →
    (w.run later).at? p = some (r.uses (w.usesAt p later)) ∧
    ∀ m, (∀ call ∈ r.accepted (w.usesAt p later), call.method ≠ m) →
      Router.buildings m r (w.usesAt p later) ≤ 1
  /-- Each table that a read builds is reported. -/
  reported : ∀ p r (q : Router.Query), w.at? p = some r →
    (q.read r).events.countP Event.isFallbackBuilt =
      (r.methods.map (·.1)).countP fun m => !r.tabled m && (q.read r).router.tabled m
  /-- Where tables are built before publishing, readers find all of them in every version and build
  none. -/
  prepared : prebuild = true → ∀ n r, w.at? (.version n) = some r → r.Prepared ∧
    ∀ q : Router.Query,
      (q.read r).router = r ∧ (q.read r).events.countP Event.isFallbackBuilt = 0

/-- Whatever is registered, copied, published or asked, in whatever order, tables are built from
what was registered alone, and nothing that is read tells whether or when. -/
theorem tables_unobserved (us : List Router.Use) (prebuild : Bool) (steps : List Step) :
    TablesUnobserved us prebuild steps ((start us prebuild).run steps)
      ((Ledger.start us).run steps) := by
  have hkeeps := (keeps_start us prebuild).run steps
  refine ⟨fun p r m t f hr ht hf => hkeeps.built hr ht hf, hkeeps.answer?_eq,
    fun us' prebuild' steps' hus hsteps source q => ?unread,
    fun p r later hr => ⟨at?_run hr later, ?once⟩, fun p r q hr => ?reported, ?prepared⟩
  case unread =>
    have hledger : (Ledger.start us').run steps' = (Ledger.start us).run steps := by
      rw [← Ledger.run_filter, hsteps, Ledger.run_filter, Ledger.start,
        ← Router.foldl_noted_filter, hus, Router.foldl_noted_filter]
      rfl
    rw [((keeps_start us' prebuild').run steps').answer?_eq, hledger, hkeeps.answer?_eq]
  case once =>
    obtain ⟨calls, -, hholds⟩ := hkeeps.exists_calls hr
    exact fun m hother => hholds.buildings_le_one hother
  case reported =>
    have hreachable := hkeeps.reachable hr
    exact (q.builtTo r).countP_eq hreachable.valid (q.reachable_read hreachable).valid
  case prepared =>
    rintro rfl n r hr
    have hfirst : ∀ r ∈ (start us true).session.shared.versions, r.Prepared := by
      intro r hr
      rw [List.mem_singleton.1 hr]
      exact Router.prepared_buildAll _
    have hr' : r ∈ ((start us true).run steps).session.shared.versions := by
      refine List.mem_of_getElem? (i := n) ?_
      exact (VersionedRouter.getElem?_versions _ n).trans hr
    have hprepared := (keeps_start us true).prepared_run rfl hfirst steps r hr'
    exact ⟨hprepared, fun q => hprepared.read (hkeeps.reachable hr) q⟩

end World

end HttpRouting
