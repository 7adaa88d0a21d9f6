import HttpRouting.Params
import HttpRouting.Proofs.Dict
import Mathlib.Data.List.Duplicate

/-!
# Parameters that share a name

One more parameter takes its name over: a lookup returns the new value (`Params.get?_push`), and so
does the dictionary (`Params.toDict_push`). Both therefore tell the last value of each name, however
many were pushed (`Params.get?_toDict`). The names of which a value is out of sight are those that
occur more than once (`Params.hides_iff`).
-/

namespace HttpRouting

/-- The dictionary has the given names as keys, each of them once, and under a name what is looked
up among the parameters. -/
structure Dict.Collects (d : Dict Text) (ps : Params) (names : List Text) : Prop where
  sorted : d.Sorted
  mem_keys : ∀ name, name ∈ d.entries.map (·.1) ↔ name ∈ names
  get?_eq : ∀ name, d.get? name = ps.get? name

namespace Params

variable {ps before after : Params} {name value : Text}

/-! ## One more parameter -/

/-- The new value counts for its name, whatever was there before. -/
theorem get?_push (ps : Params) (key value name : Text) :
    (ps.push key value).get? name = if name = key then some value else ps.get? name := by
  rw [get?, push, List.reverse_concat, List.find?_cons]
  by_cases h : key = name
  · rw [if_pos h.symm, decide_eq_true h]
    rfl
  · rw [if_neg (Ne.symm h), decide_eq_false h]
    rfl

theorem toDict_push (ps : Params) (key value : Text) :
    (ps.push key value).toDict = ps.toDict.insert key value := List.foldl_concat ..

theorem get?_toDict (ps : Params) (name : Text) : ps.toDict.get? name = ps.get? name := by
  induction ps using List.reverseRecOn with
  | nil => rfl
  | append_singleton ps a ih =>
    have hpush : ps ++ [a] = push ps a.name a.value := rfl
    rw [hpush, toDict_push, Dict.get?_insert, get?_push, ih]

/-- A name is looked up from behind. -/
theorem get?_of_last (hlast : ∀ a ∈ after, a.name ≠ name) :
    get? (before ++ ⟨name, value⟩ :: after) name = some value := by
  induction after using List.reverseRecOn with
  | nil => exact (get?_push before name value name).trans (if_pos rfl)
  | append_singleton after a ih =>
    rw [List.forall_mem_append, List.forall_mem_singleton] at hlast
    have hpush : before ++ ⟨name, value⟩ :: (after ++ [a]) =
        push (before ++ ⟨name, value⟩ :: after) a.name a.value := by
      rw [push, List.append_assoc, List.cons_append]
    rw [hpush, get?_push, if_neg (Ne.symm hlast.2), ih hlast.1]

/-! ## Many parameters -/

/-- The parameters that were pushed, in order. -/
def ofPushes (pushes : List (Text × Text)) : Params :=
  pushes.foldl (fun ps e => ps.push e.1 e.2) []

theorem ofPushes_concat (pushes : List (Text × Text)) (e : Text × Text) :
    ofPushes (pushes ++ [e]) = (ofPushes pushes).push e.1 e.2 := List.foldl_concat ..

theorem toDict_ofPushes (pushes : List (Text × Text)) :
    (ofPushes pushes).toDict = Dict.ofList pushes := by
  induction pushes using List.reverseRecOn with
  | nil => rfl
  | append_singleton pushes e ih => rw [ofPushes_concat, toDict_push, ih, Dict.ofList_concat]

theorem get?_ofPushes (pushes : List (Text × Text)) (name : Text) :
    (ofPushes pushes).get? name = (Dict.ofList pushes).get? name := by
  rw [← get?_toDict, toDict_ofPushes]

theorem collects_toDict (pushes : List (Text × Text)) :
    (ofPushes pushes).toDict.Collects (ofPushes pushes) (pushes.map (·.1)) where
  sorted := by
    rw [toDict_ofPushes]
    exact Dict.sorted_ofList pushes
  mem_keys := by
    intro name
    rw [← Dict.isSome_get?, ← Option.ne_none_iff_isSome, toDict_ofPushes, Ne,
      Dict.get?_ofList_eq_none_iff, List.mem_map]
    simp only [not_forall, not_not, exists_prop]
  get?_eq := get?_toDict _

/-! ## Values out of sight -/

/-- A value under the name is hidden by one that was pushed later. -/
def Hides (ps : Params) (name : Text) : Prop :=
  ∃ before value after, ps = before ++ ⟨name, value⟩ :: after ∧ name ∈ after.map Param.name

theorem hides_iff : ps.Hides name ↔ List.Duplicate name (ps.map Param.name) := by
  induction ps with
  | nil =>
    refine iff_of_false ?_ (List.not_duplicate_nil name)
    rintro ⟨before, value, after, h, -⟩
    exact List.append_ne_nil_of_right_ne_nil before (List.cons_ne_nil _ after) h.symm
  | cons a ps ih =>
    rw [List.map_cons, List.duplicate_cons_iff, ← ih]
    constructor
    · rintro ⟨before, value, after, h, hlater⟩
      rcases List.cons_eq_append_iff.1 h with ⟨rfl, h⟩ | ⟨before, rfl, h⟩
      · obtain ⟨rfl, rfl⟩ := List.cons.inj h
        exact .inl ⟨rfl, hlater⟩
      · exact .inr ⟨before, value, after, (List.cons.inj h).2, hlater⟩
    · rintro (⟨rfl, hlater⟩ | ⟨before, value, after, rfl, hlater⟩)
      · exact ⟨[], a.value, ps, rfl, hlater⟩
      · exact ⟨a :: before, value, after, rfl, hlater⟩

end Params

end HttpRouting
