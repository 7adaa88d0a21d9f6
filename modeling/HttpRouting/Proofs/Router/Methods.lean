import HttpRouting.Proofs.Dict
import HttpRouting.Proofs.Router.Insertion
import HttpRouting.Router.Registration

/-!
# The routes of each method

What registering a route and building a table do to the routes of one method, and what they leave
alone. `MethodRoutes.Valid` is what every registration keeps true: the tree holds the routes of the
list, the patterns in lower case are those of the routes, and a table that has been built lists the
routes in order. From it follows that the tree refuses no route whose pattern is free
(`MethodRoutes.Valid.insert_of_free`).
-/

namespace HttpRouting

/-! ## Sorting by number -/

section

variable {α : Type} {number : α → Nat} {l l' : List α}

/-- What is numbered in increasing order is told apart by the numbers. -/
theorem eq_of_number (h : l.Pairwise fun a b => number a < number b) {a b : α} (ha : a ∈ l)
    (hb : b ∈ l) (hab : number a = number b) : a = b := by
  induction l with
  | nil => cases ha
  | cons c l ih =>
    obtain ⟨hc, h⟩ := List.pairwise_cons.1 h
    rcases List.mem_cons.1 ha with ha | ha <;> rcases List.mem_cons.1 hb with hb | hb
    · rw [ha, hb]
    · have := hc b hb
      rw [ha] at hab
      omega
    · have := hc a ha
      rw [hb] at hab
      omega
    · exact ih h ha hb

theorem nodup_of_number (h : l.Pairwise fun a b => number a < number b) : l.Nodup := by
  refine h.imp ?_
  rintro a _ hlt rfl
  exact Nat.lt_irrefl _ hlt

/-- Sorting by number puts back in order what was in order. -/
theorem mergeSort_eq_of_perm (hperm : l.Perm l')
    (h : l'.Pairwise fun a b => number a < number b) :
    (l.mergeSort fun a b => number a ≤ number b) = l' := by
  have hsorted : (l.mergeSort fun a b => number a ≤ number b).Pairwise
      fun a b => number a ≤ number b := by
    refine List.Pairwise.imp of_decide_eq_true (List.pairwise_mergeSort ?_ ?_ l)
    · intro a b c hab hbc
      exact decide_eq_true (Nat.le_trans (of_decide_eq_true hab) (of_decide_eq_true hbc))
    · intro a b
      simpa using Nat.le_total (number a) (number b)
  have hperm := (List.mergeSort_perm l fun a b => number a ≤ number b).trans hperm
  refine List.Perm.eq_of_pairwise (fun a b ha hb hab hba => ?_) hsorted (h.imp Nat.le_of_lt) hperm
  exact eq_of_number h (hperm.subset ha) hb (Nat.le_antisymm hab hba)

end

/-! ## Places by method -/

namespace Router

variable {r : Router} {m m' : Method} {t t' : MethodRoutes} {l : List (Method × MethodRoutes)}

theorem lookup_setRoutes (m m' : Method) (t : MethodRoutes) (l : List (Method × MethodRoutes)) :
    (setRoutes m t l).lookup m' = if m' = m then some t else l.lookup m' := by
  induction l with
  | nil => exact lookup_cons m' m t []
  | cons e l ih =>
    obtain ⟨k, s⟩ := e
    by_cases hk : k = m
    · subst hk
      by_cases hm : m' = k <;> simp [setRoutes, lookup_cons, hm]
    · by_cases hm : m' = k
      · subst hm
        simp [setRoutes, hk]
      · simp [setRoutes, lookup_cons, hk, hm, ih]

theorem setRoutes_of_lookup (h : l.lookup m = some t) : setRoutes m t l = l := by
  induction l with
  | nil => cases h
  | cons e l ih =>
    obtain ⟨k, s⟩ := e
    rw [lookup_cons] at h
    by_cases hk : k = m
    · rw [if_pos hk.symm] at h
      cases h
      exact if_pos hk
    · rw [if_neg (Ne.symm hk)] at h
      simp [setRoutes, hk, ih h]

theorem setRoutes_setRoutes (m : Method) (t t' : MethodRoutes) (l : List (Method × MethodRoutes)) :
    setRoutes m t' (setRoutes m t l) = setRoutes m t' l := by
  induction l with
  | nil => simp [setRoutes]
  | cons e l ih =>
    obtain ⟨k, s⟩ := e
    by_cases hk : k = m <;> simp [setRoutes, hk, ih]

/-- A method keeps its place; a new one comes last. -/
theorem keys_setRoutes (m : Method) (t : MethodRoutes) (l : List (Method × MethodRoutes)) :
    (setRoutes m t l).map (·.1) =
      if m ∈ l.map (·.1) then l.map (·.1) else l.map (·.1) ++ [m] := by
  induction l with
  | nil => simp [setRoutes]
  | cons e l ih =>
    obtain ⟨k, s⟩ := e
    by_cases hk : k = m
    · simp [setRoutes, hk]
    · simp only [setRoutes, if_neg hk, List.map_cons, ih, List.mem_cons, Ne.symm hk, false_or]
      split <;> rfl

theorem nodup_setRoutes (h : (l.map (·.1)).Nodup) (m : Method) (t : MethodRoutes) :
    ((setRoutes m t l).map (·.1)).Nodup := by
  rw [keys_setRoutes]
  split
  · exact h
  · next hm =>
    refine List.nodup_append.2 ⟨h, List.pairwise_singleton _ m, fun a ha b hb => ?_⟩
    rintro rfl
    rw [List.mem_singleton] at hb
    exact hm (hb ▸ ha)

theorem mem_of_lookup (h : l.lookup m = some t) : (m, t) ∈ l := by
  obtain ⟨l₁, l₂, rfl, -⟩ := List.lookup_eq_some_iff.1 h
  exact List.mem_append_right _ List.mem_cons_self

theorem lookup_of_mem (hl : (l.map (·.1)).Nodup) (h : (m, t) ∈ l) : l.lookup m = some t := by
  induction l with
  | nil => cases h
  | cons e l ih =>
    obtain ⟨k, s⟩ := e
    obtain ⟨hk, hl⟩ := List.nodup_cons.1 hl
    rcases List.mem_cons.1 h with he | hm
    · cases he
      exact List.lookup_cons_self
    · have : m ≠ k := fun he => hk (List.mem_map.2 ⟨(m, t), hm, he⟩)
      rw [lookup_cons, if_neg this]
      exact ih hl hm

theorem lookup_map (f : MethodRoutes → MethodRoutes) (l : List (Method × MethodRoutes)) :
    (l.map fun (m, t) => (m, f t)).lookup m = (l.lookup m).map f := by
  induction l with
  | nil => rfl
  | cons e l ih =>
    obtain ⟨k, s⟩ := e
    rw [List.map_cons, lookup_cons, lookup_cons, ih]
    split <;> rfl

theorem withMethod_of_some (h : r.routesOf? m = some t) : r.withMethod m = r := by
  rw [withMethod, h]

/-- The routes of a method; none as long as it has no place. -/
def routesOf (r : Router) (m : Method) : MethodRoutes := (r.routesOf? m).getD .empty

theorem routesOf?_withMethod (r : Router) (m : Method) :
    (r.withMethod m).routesOf? m = some (r.routesOf m) := by
  unfold withMethod routesOf
  cases h : r.routesOf? m with
  | some t => exact h
  | none => exact (lookup_setRoutes ..).trans (if_pos rfl)

theorem setRoutes_withMethod (r : Router) (m : Method) (t : MethodRoutes) :
    setRoutes m t (r.withMethod m).methods = setRoutes m t r.methods := by
  unfold withMethod
  cases r.routesOf? m with
  | some t => rfl
  | none => exact setRoutes_setRoutes ..

end Router

/-! ## The routes of one method -/

namespace MethodRoutes

/-- What every registration keeps true of the routes of a method. -/
structure Valid (t : MethodRoutes) : Prop where
  /-- The tree holds the routes of the list. -/
  grown : t.tree.Grown t.routes
  taken : t.taken = t.routes.map fun r => Text.lower r.text
  ordered : t.routes.Pairwise fun a b => a.number < b.number
  /-- A table that has been built lists the routes in order. -/
  built : ∀ f, t.built? = some f → f.routes = t.routes

variable {t : MethodRoutes}

theorem valid_empty : empty.Valid := ⟨.empty, rfl, .nil, nofun⟩

theorem holds_iff (h : t.taken = t.routes.map fun r => Text.lower r.text) (p : Pattern) :
    t.holds p = true ↔ ∃ r ∈ t.routes, Text.lower r.text = Text.lower p.text := by
  rw [holds, h, List.contains_iff_mem, List.mem_map]

namespace Valid

theorem routes_perm (ht : t.Valid) : t.tree.routes.Perm t.routes := by
  have hperm := ht.grown.entries_perm.map (·.2)
  rw [← Tree.routes_eq, List.map_map] at hperm
  exact hperm.trans (.of_eq (List.map_id _))

/-- The fallback table lists the routes in the order of registration, built or not. -/
theorem routes_fallback (ht : t.Valid) : t.fallback.routes = t.routes := by
  unfold fallback
  cases hb : t.built? with
  | some f => exact ht.built f hb
  | none => exact mergeSort_eq_of_perm ht.routes_perm ht.ordered

theorem build (ht : t.Valid) : t.build.Valid := by
  refine ⟨ht.grown, ht.taken, ht.ordered, fun f hf => ?_⟩
  cases hf
  exact ht.routes_fallback

variable {r : Route} {text : Text}

/-- A route whose pattern is free is in the way of no other: its key would spell out a pattern that
is taken. -/
theorem insert_eq_none (ht : t.Valid) (hparse : Pattern.parse text = .ok r.pattern)
    (hfree : t.holds r.pattern = false) : (t.tree.insert r r.pattern.key).2 = none := by
  cases hinsert : (t.tree.insert r r.pattern.key).2 with
  | none => rfl
  | some other =>
    obtain ⟨-, hm⟩ := Tree.insert_eq_some ht.grown.wf (Pattern.regular_key hparse) hinsert
    obtain ⟨hother, hkey⟩ := ht.grown.mem_entries.1 hm
    have htext : Text.lower other.text = Text.lower r.pattern.text := by
      rw [Route.text, ← Pattern.text_key, ← Pattern.text_key, hkey]
    have htaken := (holds_iff ht.taken r.pattern).2 ⟨other, hother, htext⟩
    rw [hfree] at htaken
    cases htaken

/-- A route whose pattern is free is added, and the table given up. -/
theorem insert_of_free (ht : t.Valid) (hparse : Pattern.parse text = .ok r.pattern)
    (hfree : t.holds r.pattern = false) :
    t.insert r = (⟨(t.tree.insert r r.pattern.key).1, t.taken ++ [Text.lower r.text],
      t.routes ++ [r], none⟩, none) := by
  have hnone := ht.insert_eq_none hparse hfree
  unfold insert
  rcases hinsert : t.tree.insert r r.pattern.key with ⟨tree, other?⟩
  rw [hinsert] at hnone
  cases hnone
  rfl

theorem insert (ht : t.Valid) (hparse : Pattern.parse text = .ok r.pattern)
    (hfree : t.holds r.pattern = false) (hnumber : ∀ e ∈ t.routes, e.number < r.number) :
    (t.insert r).1.Valid := by
  rw [ht.insert_of_free hparse hfree]
  refine ⟨.insert ht.grown hparse (Prod.ext rfl (ht.insert_eq_none hparse hfree)), ?_, ?_, nofun⟩
  · rw [ht.taken, List.map_append]
    rfl
  · refine List.pairwise_append.2 ⟨ht.ordered, List.pairwise_singleton _ _, fun a ha b hb => ?_⟩
    rw [List.mem_singleton.1 hb]
    exact hnumber a ha

end Valid

end MethodRoutes

end HttpRouting
