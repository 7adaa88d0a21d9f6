import HttpRouting.Proofs.Router.Methods

/-!
# Registrations

A registration either adds one route (`Router.extend`) or leaves the router as it was
(`Router.Valid.register_cases`). `Router.Valid` is what holds of every router that registrations
lead to, however its tables are built in between (`Router.Reachable.valid`). In such a router a
route is refused for its method, for its text or for being taken, and for nothing else.
-/

namespace HttpRouting

namespace Router

variable {r : Router} {m : Method} {t : MethodRoutes} {p : Pattern} {handlers : List Handler}
  {text : Text}

/-! ## Valid routers -/

/-- What every registration keeps true of a router. -/
structure Valid (r : Router) : Prop where
  distinct : (r.methods.map (·.1)).Nodup
  valid : ∀ m t, r.routesOf? m = some t → t.Valid
  /-- Routes are numbered from those registered so far. -/
  numbered : ∀ m t, r.routesOf? m = some t → ∀ e ∈ t.routes, e.number < r.count

theorem valid_empty : empty.Valid := ⟨.nil, nofun, nofun⟩

namespace Valid

/-- Replaces the routes of one method. -/
theorem setRoutes (hr : r.Valid) (ht : t.Valid) {count : Nat} (hcount : r.count ≤ count)
    (hnumber : ∀ e ∈ t.routes, e.number < count) (m : Method) (unreachable : List Unreachable) :
    Valid ⟨Router.setRoutes m t r.methods, count, unreachable⟩ := by
  have hcases : ∀ m' t', (Router.setRoutes m t r.methods).lookup m' = some t' →
      t' = t ∨ r.routesOf? m' = some t' := by
    intro m' t' h
    rw [lookup_setRoutes] at h
    split at h
    · cases h
      exact .inl rfl
    · exact .inr h
  refine ⟨nodup_setRoutes hr.distinct m t, fun m' t' h => ?_, fun m' t' h e he => ?_⟩
  · rcases hcases m' t' h with rfl | h
    · exact ht
    · exact hr.valid m' t' h
  · rcases hcases m' t' h with rfl | h
    · exact hnumber e he
    · exact Nat.lt_of_lt_of_le (hr.numbered m' t' h e he) hcount

theorem routesOf (hr : r.Valid) (m : Method) : (r.routesOf m).Valid := by
  unfold Router.routesOf
  cases h : r.routesOf? m with
  | some t => exact hr.valid m t h
  | none => exact MethodRoutes.valid_empty

theorem number_lt (hr : r.Valid) (m : Method) :
    ∀ e ∈ (r.routesOf m).routes, e.number < r.count := by
  unfold Router.routesOf
  cases h : r.routesOf? m with
  | some t => exact hr.numbered m t h
  | none => exact nofun

theorem build (hr : r.Valid) (m : Method) : (r.build m).Valid := by
  unfold Router.build
  cases h : r.routesOf? m with
  | some t => exact hr.setRoutes (hr.valid m t h).build (Nat.le_refl _) (hr.numbered m t h) m _
  | none => exact hr

theorem buildAll (hr : r.Valid) : r.buildAll.Valid := by
  have hlookup : ∀ m t, r.buildAll.routesOf? m = some t →
      ∃ s, r.routesOf? m = some s ∧ s.build = t := by
    intro m t h
    exact Option.map_eq_some_iff.1 ((lookup_map MethodRoutes.build r.methods).symm.trans h)
  refine ⟨?_, fun m t h => ?_, fun m t h => ?_⟩
  · have hkeys : r.buildAll.methods.map (·.1) = r.methods.map (·.1) := List.map_map
    rw [hkeys]
    exact hr.distinct
  · obtain ⟨s, hs, rfl⟩ := hlookup m t h
    exact (hr.valid m s hs).build
  · obtain ⟨s, hs, rfl⟩ := hlookup m t h
    exact hr.numbered m s hs

/-- The routes in the place of a method are those of the method. -/
theorem exists_mem_methods (hr : r.Valid) (p : Route → Prop) :
    (∃ t, (m, t) ∈ r.methods ∧ ∃ e ∈ t.routes, p e) ↔ ∃ e ∈ (r.routesOf m).routes, p e := by
  rw [Router.routesOf]
  constructor
  · rintro ⟨t, ht, he⟩
    have hlookup : r.routesOf? m = some t := lookup_of_mem hr.distinct ht
    rw [hlookup]
    exact he
  · rintro ⟨e, he, hp⟩
    cases h : r.routesOf? m with
    | some t => rw [h] at he; exact ⟨t, mem_of_lookup h, e, he, hp⟩
    | none => rw [h] at he; cases he

/-- A method and a text are listed if the method has a route of that text. -/
theorem mem_routes (hr : r.Valid) :
    (m, text) ∈ r.routes ↔ ∃ e ∈ (r.routesOf m).routes, e.text = text := by
  rw [← hr.exists_mem_methods fun e => e.text = text]
  simp only [Router.routes, List.mem_map, (List.mergeSort_perm _ _).mem_iff, List.mem_flatMap]
  constructor
  · rintro ⟨_, ⟨⟨m', t⟩, ht, e, he, rfl⟩, h⟩
    cases h
    exact ⟨t, ht, e, he, rfl⟩
  · rintro ⟨t, ht, e, he, rfl⟩
    exact ⟨_, ⟨(m, t), ht, e, he, rfl⟩, rfl⟩

end Valid

/-! ## What a registration does -/

/-- The router with one more route, and a note if the route is not reached. -/
def extend (r : Router) (m : Method) (e : Route) : Router :=
  ⟨setRoutes m ((r.routesOf m).insert e).1 r.methods, r.count + 1,
    r.unreachable ++
      (((r.routesOf m).covering? e.pattern).map fun c => ⟨m, e.text, c.text⟩).toList⟩

/-- A pattern that is taken is refused before anything changes; the method has a place already. -/
theorem add_of_holds (handlers : List Handler) (h : (r.routesOf m).holds p = true) :
    r.add m p handlers = ⟨some (.taken m p.text), r, []⟩ := by
  cases hm : r.routesOf? m with
  | none =>
    rw [routesOf, hm] at h
    cases h
  | some t =>
    rw [routesOf, hm, Option.getD_some] at h
    simp only [add, withMethod_of_some hm, hm, Option.getD_some, h, if_true]

theorem count_withMethod (r : Router) (m : Method) : (r.withMethod m).count = r.count := by
  unfold withMethod
  cases r.routesOf? m <;> rfl

theorem unreachable_withMethod (r : Router) (m : Method) :
    (r.withMethod m).unreachable = r.unreachable := by
  unfold withMethod
  cases r.routesOf? m <;> rfl

/-- A route is refused if its pattern is taken, or if the tree has a route in its way. -/
theorem refusal?_add (r : Router) (m : Method) (p : Pattern) (handlers : List Handler) :
    (r.add m p handlers).refusal? =
      if (r.routesOf m).holds p = true ∨
        ((r.routesOf m).insert ⟨p, handlers, r.count⟩).2.isSome = true then some (.taken m p.text)
      else none := by
  simp only [add, routesOf?_withMethod, Option.getD_some, count_withMethod]
  by_cases hholds : (r.routesOf m).holds p = true
  · rw [if_pos hholds, if_pos (.inl hholds)]
  · rw [if_neg hholds]
    rcases (r.routesOf m).insert ⟨p, handlers, r.count⟩ with ⟨t, _ | other⟩
    · exact (if_neg (not_or.2 ⟨hholds, Bool.false_ne_true⟩)).symm
    · exact (if_pos (.inr rfl)).symm

theorem refusal?_add_eq_none : (r.add m p handlers).refusal? = none ↔
    (r.routesOf m).holds p = false ∧ ((r.routesOf m).insert ⟨p, handlers, r.count⟩).2 = none := by
  rw [refusal?_add, ite_eq_right_iff, imp_iff_not nofun, not_or, Bool.not_eq_true,
    ← Option.not_isSome_iff_eq_none]

theorem add_of_inserted (hfree : (r.routesOf m).holds p = false)
    (hinsert : ((r.routesOf m).insert ⟨p, handlers, r.count⟩).2 = none) :
    r.add m p handlers = ⟨none, r.extend m ⟨p, handlers, r.count⟩,
      registrationNotices m p ((r.routesOf m).covering? p) ++ [.registered m p.text]⟩ := by
  simp only [add, routesOf?_withMethod, Option.getD_some, hfree, count_withMethod,
    unreachable_withMethod, setRoutes_withMethod, extend]
  rcases hresult : (r.routesOf m).insert ⟨p, handlers, r.count⟩ with ⟨t, other?⟩
  rw [hresult] at hinsert
  cases hinsert
  rfl

theorem Valid.add_of_free (hr : r.Valid) (handlers : List Handler)
    (hparse : Pattern.parse text = .ok p) (hfree : (r.routesOf m).holds p = false) :
    r.add m p handlers = ⟨none, r.extend m ⟨p, handlers, r.count⟩,
      registrationNotices m p ((r.routesOf m).covering? p) ++ [.registered m p.text]⟩ := by
  refine add_of_inserted hfree ?_
  rw [(hr.routesOf m).insert_of_free (r := ⟨p, handlers, r.count⟩) hparse hfree]

theorem Valid.extend (hr : r.Valid) (hparse : Pattern.parse text = .ok p)
    (hfree : (r.routesOf m).holds p = false) (handlers : List Handler) :
    (r.extend m ⟨p, handlers, r.count⟩).Valid := by
  have hinsert := (hr.routesOf m).insert (r := ⟨p, handlers, r.count⟩) hparse hfree (hr.number_lt m)
  refine hr.setRoutes hinsert (Nat.le_succ _) (fun e he => ?_) m _
  rw [(hr.routesOf m).insert_of_free (r := ⟨p, handlers, r.count⟩) hparse hfree] at he
  rcases List.mem_append.1 he with he | he
  · exact Nat.lt_succ_of_lt (hr.number_lt m e he)
  · rw [List.mem_singleton.1 he]
    exact Nat.lt_succ_self _

theorem routesOf?_extend (r : Router) (m m' : Method) (e : Route) :
    (r.extend m e).routesOf? m' =
      if m' = m then some ((r.routesOf m).insert e).1 else r.routesOf? m' :=
  lookup_setRoutes ..

/-- An accepted registration adds its route to those of its method, behind them, and leaves the
other methods alone. -/
theorem Valid.routes_extend (hr : r.Valid) {p : Pattern} (hparse : Pattern.parse text = .ok p)
    (hfree : (r.routesOf m).holds p = false) (handlers : List Handler) (m' : Method) :
    ((r.extend m ⟨p, handlers, r.count⟩).routesOf m').routes =
      (r.routesOf m').routes ++ if m' = m then [⟨p, handlers, r.count⟩] else [] := by
  rw [Router.routesOf, routesOf?_extend]
  by_cases hm : m' = m
  · subst hm
    rw [if_pos rfl, if_pos rfl, Option.getD_some,
      (hr.routesOf m').insert_of_free (r := ⟨p, handlers, r.count⟩) hparse hfree]
  · rw [if_neg hm, if_neg hm, List.append_nil]
    rfl

/-- A registration is refused and leaves the router as it was, or it adds its route. -/
theorem Valid.register_cases (hr : r.Valid) (m : Method) (text : Text) (handlers : List Handler) :
    (∃ refusal, r.register m text handlers = ⟨some refusal, r, []⟩) ∨
      ∃ p, Pattern.parse text = .ok p ∧ (r.routesOf m).holds p = false ∧
        r.register m text handlers = ⟨none, r.extend m ⟨p, handlers, r.count⟩,
          registrationNotices m p ((r.routesOf m).covering? p) ++ [.registered m p.text]⟩ := by
  unfold register
  split
  · split
    · next p hparse =>
      cases hholds : (r.routesOf m).holds p with
      | true => exact .inl ⟨_, add_of_holds handlers hholds⟩
      | false => exact .inr ⟨p, hparse, hholds, hr.add_of_free handlers hparse hholds⟩
    · exact .inl ⟨_, rfl⟩
  · exact .inl ⟨_, rfl⟩

theorem Valid.register_accepted (hr : r.Valid)
    (haccepted : (r.register m text handlers).refusal? = none) :
    ∃ p, Pattern.parse text = .ok p ∧ (r.routesOf m).holds p = false ∧
      (r.register m text handlers).state = r.extend m ⟨p, handlers, r.count⟩ := by
  rcases hr.register_cases m text handlers with ⟨refusal, h⟩ | ⟨p, hparse, hfree, h⟩
  · rw [h] at haccepted
    cases haccepted
  · exact ⟨p, hparse, hfree, by rw [h]⟩

/-! ## Reachable routers -/

/-- The routers that registrations lead to, successful or not, with tables built at any time. -/
inductive Reachable : Router → Prop
  | empty : Reachable .empty
  | register {r : Router} (hr : Reachable r) (m : Method) (text : Text) (handlers : List Handler) :
    Reachable (r.register m text handlers).state
  | build {r : Router} (hr : Reachable r) (m : Method) : Reachable (r.build m)
  | buildAll {r : Router} (hr : Reachable r) : Reachable r.buildAll

theorem Reachable.valid (hr : r.Reachable) : r.Valid := by
  induction hr with
  | empty => exact valid_empty
  | register hr m text handlers ih =>
    rcases ih.register_cases m text handlers with ⟨refusal, h⟩ | ⟨p, hparse, hfree, h⟩
    · rw [h]
      exact ih
    · rw [h]
      exact ih.extend hparse hfree handlers
  | build hr m ih => exact ih.build m
  | buildAll hr ih => exact ih.buildAll

/-! ## Refusals -/

/-- A registration is refused exactly if the method is not supported, or else the text is no
pattern, or else the method has a route of the same text, letter case aside; the reasons are tried
in this order. A refused registration leaves the router as it was and reports nothing. Once the
pattern is found to be free, the tree has no route in its way. -/
theorem Reachable.register_refuses (hr : r.Reachable) (m : Method) (text : Text)
    (handlers : List Handler) :
    (r.register m text handlers).refusal? =
      (if m ∈ Method.supported then
        match Pattern.parse text with
        | .error fault => some (.malformed text fault)
        | .ok _ =>
          if ∃ e ∈ r.routes, e.1 = m ∧ Text.lower e.2 = Text.lower text then some (.taken m text)
          else none
      else some (.unsupported m)) ∧
    ((r.register m text handlers).refusal?.isSome = true →
      (r.register m text handlers).state = r ∧ (r.register m text handlers).events = []) ∧
    ∀ p, Pattern.parse text = .ok p →
      ∃ t, (r.withMethod m).routesOf? m = some t ∧
        (t.holds p = false → (t.insert ⟨p, handlers, r.count⟩).2 = none) := by
  have hvalid := hr.valid
  refine ⟨?_, fun hrefused => ?_, fun p hparse => ?_⟩
  · unfold Router.register
    split
    · cases hparse : Pattern.parse text with
      | error fault => rfl
      | ok p =>
        have hholds : (r.routesOf m).holds p = true ↔
            ∃ e ∈ r.routes, e.1 = m ∧ Text.lower e.2 = Text.lower text := by
          rw [MethodRoutes.holds_iff (hvalid.routesOf m).taken, Pattern.text_parse hparse]
          constructor
          · rintro ⟨e, he, hlower⟩
            exact ⟨(m, e.text), hvalid.mem_routes.2 ⟨e, he, rfl⟩, rfl, hlower⟩
          · rintro ⟨⟨m', _⟩, hm, rfl, hlower⟩
            obtain ⟨e, he, rfl⟩ := hvalid.mem_routes.1 hm
            exact ⟨e, he, hlower⟩
        by_cases h : (r.routesOf m).holds p = true
        · rw [if_pos (hholds.1 h)]
          simp only [add_of_holds handlers h, Pattern.text_parse hparse]
        · rw [if_neg (mt hholds.2 h)]
          simp only [hvalid.add_of_free handlers hparse (Bool.eq_false_iff.2 h)]
    · rfl
  · rcases hvalid.register_cases m text handlers with ⟨refusal, h⟩ | ⟨p, -, -, h⟩
    · rw [h]
      exact ⟨rfl, rfl⟩
    · rw [h] at hrefused
      cases hrefused
  · refine ⟨_, routesOf?_withMethod r m, fun hfree => ?_⟩
    rw [(hvalid.routesOf m).insert_of_free hparse hfree]

/-- After `/a` the method has no place for `/A`. -/
theorem Reachable.register_refuses_respelled : ∃ r, Reachable r ∧ r.count = 1 ∧
    (r.register .get ['/', 'A'] []).refusal? = some (.taken .get ['/', 'A']) ∧
    (r.register .get ['/', 'A'] []).state = r := by
  have hr : Reachable _ := .register .empty .get ['/', 'a'] []
  exact ⟨_, hr, rfl, rfl, ((hr.register_refuses .get ['/', 'A'] []).2.1 rfl).1⟩

end Router

end HttpRouting
