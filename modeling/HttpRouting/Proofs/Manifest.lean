import HttpRouting.Manifest
import HttpRouting.Proofs.Router.Listing
import HttpRouting.Proofs.Router.Matching
import HttpRouting.Proofs.Service.Steps
import Mathlib.Data.List.Induction
import Mathlib.Data.List.Pairwise

/-!
# Services from manifests

A manifest is loaded entry by entry, and each entry is checked against those before it
(`Manifest.Entry.fault?`). What has been loaded after some entries is said by `Manifest.Loaded`, and
one more entry either keeps it true or is at fault (`Manifest.Loaded.add`). So a service comes of
the manifest exactly if no entry is at fault, and it answers each request that a route handles under
the name of the one entry that the route comes from (`Manifest.service_loads`).
-/

namespace HttpRouting

namespace Service

variable {s : Service} {m : Method} {text : Text} {handlers : List Handler}
  {calls : List Router.Call}

theorem refusal?_register (s : Service) (m : Method) (text : Text) (handlers : List Handler) :
    (s.register m text handlers).refusal? =
      (s.router.current.register m text (s.middleware ++ handlers)).refusal? :=
  s.router.refusal?_register m text (s.middleware ++ handlers)

theorem holds_register (h : s.router.current.Holds calls)
    (haccepted : (s.register m text handlers).refusal? = none) :
    (s.register m text handlers).state.router.current.Holds
      (calls ++ [⟨m, text, s.middleware ++ handlers⟩]) := by
  rw [refusal?_register] at haccepted
  have hholds := h.register ⟨m, text, s.middleware ++ handlers⟩
  rw [Router.noted, ← h.refusal?_eq, haccepted, Option.isNone_none, if_pos rfl] at hholds
  rw [state_register, VersionedRouter.register]
  simp only [haccepted]
  exact hholds.ready s.router.prebuild

end Service

namespace Manifest

/-! ## Entries at fault -/

/-- The entries name the same method, and patterns that are the same, letter case aside. -/
def Entry.Clashes (e other : Entry) : Prop :=
  Text.upper (Text.trim e.method) = Text.upper (Text.trim other.method) ∧
    Text.lower e.pattern = Text.lower other.pattern

instance (e other : Entry) : Decidable (e.Clashes other) := inferInstanceAs (Decidable (_ ∧ _))

/-- The error of an entry, if it is at fault by itself or clashes with one of those before it. -/
def Entry.fault? (before : List Entry) (e : Entry) : Option LoadError :=
  match Method.ofWritten? e.method with
  | none => some (.badMethod e.method)
  | some m =>
    if m ∈ Method.supported then
      match Pattern.parse e.pattern with
      | .error fault => some (.refused e.method e.pattern (.malformed e.pattern fault))
      | .ok _ =>
        if ∃ other ∈ before, other.Clashes e then
          some (.refused e.method e.pattern (.taken m e.pattern))
        else none
    else some (.refused e.method e.pattern (.unsupported m))

/-- The entry names a method that routes may be registered for, blanks and the case of letters
aside, and a pattern. -/
structure Entry.Sound (e : Entry) : Prop where
  method : ∃ m ∈ Method.supported, m.token = Text.upper (Text.trim e.method)
  pattern : ∃ p, Pattern.parse e.pattern = .ok p

/-- No entry is at fault, each being checked against those before it. -/
def Faultless (es : List Entry) : Prop :=
  ∀ before e after, es = before ++ e :: after → e.fault? before = none

theorem ofWritten?_eq_some_iff {written : Text} {m : Method} :
    Method.ofWritten? written = some m ↔ m.token = Text.upper (Text.trim written) := by
  unfold Method.ofWritten? Method.ofText?
  constructor
  · intro h
    obtain ⟨_, h⟩ := Option.dite_none_right_eq_some.1 h
    cases h
    rfl
  · obtain ⟨token, hvalid⟩ := m
    rintro rfl
    exact dif_pos hvalid

theorem Entry.fault?_eq_none_iff {before : List Entry} {e : Entry} :
    e.fault? before = none ↔ e.Sound ∧ ∀ other ∈ before, ¬ other.Clashes e := by
  unfold fault?
  cases hm : Method.ofWritten? e.method with
  | none =>
    refine iff_of_false nofun fun h => ?_
    obtain ⟨m, -, htoken⟩ := h.1.method
    rw [← ofWritten?_eq_some_iff, hm] at htoken
    cases htoken
  | some m =>
    have hmethod : (∃ m ∈ Method.supported, m.token = Text.upper (Text.trim e.method)) ↔
        m ∈ Method.supported := by
      simp only [← ofWritten?_eq_some_iff, hm, Option.some.injEq, exists_eq_right']
    have hsound : e.Sound ↔ m ∈ Method.supported ∧ ∃ p, Pattern.parse e.pattern = .ok p :=
      ⟨fun h => ⟨hmethod.1 h.method, h.pattern⟩, fun h => ⟨hmethod.2 h.1, h.2⟩⟩
    rw [hsound]
    by_cases hsupported : m ∈ Method.supported
    · simp only [if_pos hsupported]
      cases Pattern.parse e.pattern with
      | error fault => simp
      | ok p => simp [hsupported]
    · simp [hsupported]

/-- Neither blanks around the method nor the case of letters tell the entries apart. -/
example : Entry.fault? [⟨['g', 'e', 't'], ['/', 'a'], ['x']⟩]
    ⟨[' ', 'G', 'e', 't'], ['/', 'A'], ['y']⟩ =
      some (.refused [' ', 'G', 'e', 't'] ['/', 'A'] (.taken .get ['/', 'A'])) := by
  decide

theorem faultless_nil : Faultless [] := by
  rintro (_ | _) _ _ h <;> cases h

theorem faultless_concat {es : List Entry} {e : Entry} :
    Faultless (es ++ [e]) ↔ Faultless es ∧ e.fault? es = none := by
  constructor
  · intro h
    refine ⟨fun before e' after hes => ?_, h es e [] rfl⟩
    exact h before e' (after ++ [e]) (by rw [hes, List.append_assoc]; rfl)
  · rintro ⟨h, he⟩ before e' after hes
    rcases List.eq_nil_or_concat after with rfl | ⟨after, e'', rfl⟩
    · obtain ⟨rfl, heq⟩ := List.append_inj' hes rfl
      cases heq
      exact he
    · rw [List.concat_eq_append, ← List.cons_append, ← List.append_assoc] at hes
      exact h before e' after (List.append_inj' hes rfl).1

theorem faultless_iff {es : List Entry} : Faultless es ↔
    (∀ e ∈ es, e.Sound) ∧ es.Pairwise fun e e' => ¬ e.Clashes e' := by
  induction es using List.reverseRecOn with
  | nil => exact iff_of_true faultless_nil ⟨nofun, .nil⟩
  | append_singleton es e ih =>
    rw [faultless_concat, ih, Entry.fault?_eq_none_iff, List.pairwise_append,
      List.forall_mem_append]
    simp only [List.mem_singleton, forall_eq, List.pairwise_singleton, true_and]
    exact and_and_and_comm

theorem Faultless.eq_of_clashes {es : List Entry} (h : Faultless es) {e e' : Entry} (he : e ∈ es)
    (he' : e' ∈ es) (hclash : e.Clashes e') : e = e' := by
  have hsymm : Std.Symm fun e e' : Entry => ¬ e.Clashes e' :=
    ⟨fun e e' hnot h => hnot ⟨h.1.symm, h.2.symm⟩⟩
  by_contra hne
  exact (faultless_iff.1 h).2.forall he he' hne hclash

/-! ## Loading -/

/-- The call that an entry makes: its handler records its name. -/
structure Entry.Calls (e : Entry) (call : Router.Call) : Prop where
  method : call.method.token = Text.upper (Text.trim e.method)
  pattern : call.pattern = e.pattern
  handlers : call.handlers = [.recording nameKey e.handler]

/-- The service has the routes of the entries, in order, and nothing beside them. -/
structure Loaded (s : Service) (es : List Entry) : Prop where
  holds : ∃ calls, List.Forall₂ Entry.Calls es calls ∧ s.router.current.Holds calls
  middleware : s.middleware = []

theorem loaded_new (settings : Settings) : Loaded (.new settings) [] where
  holds := ⟨[], .nil, Router.holds_empty.ready settings.prebuild⟩
  middleware := rfl

variable {s : Service} {before es : List Entry} {e : Entry} {m : Method}

/-- An entry calls for what an entry before called for if the two clash. -/
theorem exists_call_iff {calls : List Router.Call} (hcalls : List.Forall₂ Entry.Calls before calls)
    (hm : Method.ofWritten? e.method = some m) :
    (∃ call ∈ calls, call.method = m ∧ Text.lower call.pattern = Text.lower e.pattern) ↔
      ∃ other ∈ before, other.Clashes e := by
  have hclash : ∀ {other : Entry} {call : Router.Call}, other.Calls call →
      (call.method = m ∧ Text.lower call.pattern = Text.lower e.pattern ↔ other.Clashes e) := by
    intro other call h
    have hmethod : call.method = m ↔ call.method.token = m.token := by
      rw [Method.mk.injEq]
    rw [Entry.Clashes, ← h.method, ← ofWritten?_eq_some_iff.1 hm, h.pattern, hmethod]
  induction hcalls with
  | nil => exact iff_of_false nofun nofun
  | cons h _ ih =>
    simp only [List.mem_cons, exists_eq_or_imp, ih, hclash h]

theorem exists_of_call {calls : List Router.Call} (hcalls : List.Forall₂ Entry.Calls es calls)
    {call : Router.Call} (hcall : call ∈ calls) : ∃ e ∈ es, e.Calls call := by
  induction hcalls with
  | nil => cases hcall
  | cons h _ ih =>
    rw [List.exists_mem_cons_iff]
    rcases List.mem_cons.1 hcall with rfl | hcall
    · exact .inl h
    · exact .inr (ih hcall)

namespace Loaded

theorem fault?_eq (h : Loaded s before) (hm : Method.ofWritten? e.method = some m) :
    e.fault? before = ((s.register m e.pattern [.recording nameKey e.handler]).refusal?).map
      (.refused e.method e.pattern) := by
  obtain ⟨calls, hcalls, hholds⟩ := h.holds
  have hrefusal : (s.register m e.pattern [.recording nameKey e.handler]).refusal? =
      (s.router.current.register m e.pattern [.recording nameKey e.handler]).refusal? := by
    rw [Service.refusal?_register, h.middleware, List.nil_append]
  rw [hrefusal, hholds.refusal?_register, Entry.fault?, hm]
  simp only [exists_call_iff hcalls hm]
  by_cases hsupported : m ∈ Method.supported
  · simp only [if_pos hsupported]
    cases Pattern.parse e.pattern with
    | error fault => rfl
    | ok p =>
      simp only
      split <;> rfl
  · simp only [if_neg hsupported]
    rfl

/-- One more entry is at fault, or is loaded behind the others. -/
theorem add (h : Loaded s before) (e : Entry) :
    (∃ err, e.fault? before = some err ∧ Manifest.add s e = .error err) ∨
      e.fault? before = none ∧ ∃ s', Manifest.add s e = .ok s' ∧ Loaded s' (before ++ [e]) := by
  unfold Manifest.add Method.parse
  cases hm : Method.ofWritten? e.method with
  | none =>
    refine .inl ⟨.badMethod e.method, ?_, rfl⟩
    rw [Entry.fault?, hm]
  | some m =>
    rw [h.fault?_eq hm]
    cases hrefusal : (s.register m e.pattern [.recording nameKey e.handler]).refusal? with
    | some cause => exact .inl ⟨_, rfl, by simp only [hrefusal]⟩
    | none =>
      refine .inr ⟨rfl, (s.register m e.pattern [.recording nameKey e.handler]).state,
        by simp only [hrefusal], ?_, h.middleware⟩
      obtain ⟨calls, hcalls, hholds⟩ := h.holds
      refine ⟨_, ?_, Service.holds_register hholds hrefusal⟩
      refine List.rel_append hcalls (.cons ⟨ofWritten?_eq_some_iff.1 hm, rfl, ?_⟩ .nil)
      rw [h.middleware]
      rfl

end Loaded

/-- Loading goes through, or stops at the first entry that is at fault. -/
theorem load_cases (settings : Settings) (es : List Entry) :
    (Faultless es ∧ ∃ s, es.foldlM add (.new settings) = .ok s ∧ Loaded s es) ∨
      ∃ before e after err, es = before ++ e :: after ∧ Faultless before ∧
        e.fault? before = some err ∧ es.foldlM add (.new settings) = .error err := by
  induction es using List.reverseRecOn with
  | nil => exact .inl ⟨faultless_nil, _, rfl, loaded_new settings⟩
  | append_singleton es e ih =>
    rw [faultless_concat]
    simp only [List.foldlM_append, List.foldlM_cons, List.foldlM_nil]
    rcases ih with ⟨hes, s, hload, hs⟩ | ⟨before, e', after, err, rfl, hbefore, hfault, hload⟩
    · rw [hload]
      rcases hs.add e with ⟨err, hfault, hadd⟩ | ⟨hfault, s', hadd, hs'⟩
      · refine .inr ⟨es, e, [], err, rfl, hes, hfault, ?_⟩
        simp only [bind, Except.bind, hadd]
      · refine .inl ⟨⟨hes, hfault⟩, s', ?_, hs'⟩
        simp only [bind, Except.bind, hadd]
        rfl
    · refine .inr ⟨before, e', after ++ [e], err, ?_, hbefore, hfault, ?_⟩
      · rw [List.append_assoc, List.cons_append]
      · rw [hload]
        rfl

/-! ## Requests -/

theorem Loaded.map_routes (h : Loaded s es) :
    s.router.current.routes.map (fun x => (x.1.token, x.2)) =
      es.map fun e => (Text.upper (Text.trim e.method), e.pattern) := by
  obtain ⟨calls, hcalls, hholds⟩ := h.holds
  have hroutes : s.router.current.routes = calls.map fun call => (call.method, call.pattern) :=
    hholds.routes_eq (.refl _)
  rw [hroutes, List.map_map]
  clear h hroutes hholds
  induction hcalls with
  | nil => rfl
  | cons hcall _ ih =>
    rw [List.map_cons, List.map_cons, ih, ← hcall.method, ← hcall.pattern]
    rfl

/-- The one handler of a route has recorded its name in the end. -/
theorem store_guarded_recording (id : RequestId) (m : Method) (path : Text) (route : Option Text)
    (params : Params) (name : Text) :
    (Run.guarded (.new id m path route params) [.recording nameKey name]).exchange.store.get?
      nameKey = some (.str name) := rfl

/-- A request that is handled is handled under the name of an entry. -/
theorem Loaded.exists_entry (h : Loaded s es) {path : Text} {id : RequestId} {run : Run}
    (hrun : (s.respond m path id).outcome = .handled run) :
    run.exchange.method = m ∧ ∃ e ∈ es, Text.upper (Text.trim e.method) = m.token ∧
      run.exchange.route = some e.pattern ∧
      run.exchange.store.get? nameKey = some (.str e.handler) := by
  obtain ⟨calls, hcalls, hholds⟩ := h.holds
  obtain ⟨route, params, hfound, rfl⟩ := Service.run_of_handled hrun
  have hroute := hholds.reachable.valid.mem_of_found? m path _ hfound
  have hentry : route.entry ∈ Router.entriesOf m calls := by
    rw [← hholds.entries]
    exact List.mem_map_of_mem hroute
  have hcall := List.mem_of_getElem? (Router.mem_entriesOf.1 hentry)
  obtain ⟨e, he, hmethod, hpattern, hhandlers⟩ := exists_of_call hcalls hcall
  have hhandlers : route.handlers = [.recording nameKey e.handler] := hhandlers
  rw [hhandlers]
  refine ⟨rfl, e, he, hmethod.symm, congrArg some hpattern, ?_⟩
  exact store_guarded_recording ..

/-- What a service does that a manifest was loaded into. -/
structure Serves (m : Manifest) (s : Service) : Prop where
  /-- The entries are listed in order. -/
  routes : s.router.current.routes.map (fun x => (x.1.token, x.2)) =
    m.entries.map (fun e => (Text.upper (Text.trim e.method), e.pattern))
  /-- However often the service is asked before, each request that a route handles is handled under
  the name of one entry, the only one that names the method of the request and has the pattern of
  the route. -/
  handled : ∀ (steps : List Service.Step), (∀ x ∈ steps, x.Asks) → ∀ method path id run,
    ((s.run steps).respond method path id).outcome = .handled run →
    ∃ e ∈ m.entries, run.exchange.method = method ∧
      Text.upper (Text.trim e.method) = method.token ∧
      run.exchange.route = some e.pattern ∧
      run.exchange.store.get? nameKey = some (.str e.handler) ∧
      ∀ e' ∈ m.entries, Text.upper (Text.trim e'.method) = method.token →
        run.exchange.route = some e'.pattern → e' = e

/-- What loading a manifest comes to. -/
structure Loading (m : Manifest) (settings : Settings) : Prop where
  /-- It goes through exactly if every entry names a method that routes may be registered for and a
  pattern, and no two entries clash. -/
  loads : (∃ s, m.service settings = .ok s) ↔
    (∀ e ∈ m.entries, e.Sound) ∧ m.entries.Pairwise fun e e' => ¬ e.Clashes e'
  loaded : ∀ s, m.service settings = .ok s → m.Serves s
  /-- Otherwise the error is that of the first entry that is at fault. -/
  fails : ∀ err, m.service settings = .error err →
    ∃ before e after, m.entries = before ++ e :: after ∧ Faultless before ∧
      e.fault? before = some err

/-- Every manifest whose entries are sound and do not clash is loaded, and serves its entries under
their names; any other fails at its first fault. -/
theorem service_loads (m : Manifest) (settings : Settings) : m.Loading settings := by
  rcases load_cases settings m.entries with
    ⟨hes, s, hload, hs⟩ | ⟨before, e, after, err, hentries, hbefore, hfault, hload⟩
  · refine ⟨?loads, ?loaded, ?fails⟩
    case loads =>
      rw [service, hload, ← faultless_iff]
      exact iff_of_true ⟨s, rfl⟩ hes
    case loaded =>
      intro s' hs'
      rw [service, hload] at hs'
      cases hs'
      refine ⟨hs.map_routes, fun steps hsteps method path id run hrun => ?_⟩
      rw [(Service.alike_run_of_asks s hsteps).outcome] at hrun
      obtain ⟨hmethod, e, he, htoken, hroute, hname⟩ := hs.exists_entry hrun
      refine ⟨e, he, hmethod, htoken, hroute, hname, fun e' he' htoken' hroute' => ?_⟩
      have hpattern : e'.pattern = e.pattern := Option.some.inj (hroute'.symm.trans hroute)
      exact hes.eq_of_clashes he' he ⟨htoken'.trans htoken.symm, congrArg Text.lower hpattern⟩
    case fails =>
      rw [service, hload]
      exact nofun
  · refine ⟨?loads, ?loaded, ?fails⟩
    case loads =>
      rw [service, hload, ← faultless_iff]
      refine iff_of_false nofun fun hes => ?_
      have hnone := hes before e after hentries
      rw [hfault] at hnone
      cases hnone
    case loaded =>
      rw [service, hload]
      exact nofun
    case fails =>
      rw [service, hload]
      rintro _ ⟨⟩
      exact ⟨before, e, after, hentries, hbefore, hfault⟩

end Manifest

end HttpRouting
