import HttpRouting.Dict
import Mathlib.Data.Char
import Mathlib.Data.Finset.Card
import Mathlib.Data.List.Lex

/-!
# Laws of dictionaries

Setting a value changes what one key holds and nothing else (`get?_insert`), and keeps the entries
sorted, so that every key stands once (`Sorted.exists_keys`). A dictionary that is built from a list
of settings holds the last one of each key (`get?_ofList`).
-/

namespace HttpRouting

/-- The first entry with the key counts. -/
theorem lookup_cons {κ α : Type} [BEq κ] [LawfulBEq κ] [DecidableEq κ] (key k : κ) (v : α)
    (entries : List (κ × α)) :
    ((k, v) :: entries).lookup key = if key = k then some v else entries.lookup key := by
  rw [List.lookup_cons]
  by_cases h : key = k
  · rw [if_pos h, beq_iff_eq.2 h]
  · rw [if_neg h, beq_false_of_ne h]

namespace Dict

variable {α : Type} {d : Dict α}

/-! ## Setting a value -/

theorem lookup_insertEntry (key k : Text) (v : α) (entries : List (Text × α)) :
    (insertEntry key v entries).lookup k = if k = key then some v else entries.lookup k := by
  induction entries with
  | nil => rw [insertEntry, lookup_cons]
  | cons e entries ih =>
    obtain ⟨k', v'⟩ := e
    unfold insertEntry
    split
    · next h =>
      subst h
      by_cases hk : k = key <;> simp only [lookup_cons, hk, if_true, if_false]
    split
    · rw [lookup_cons]
    · next h _ =>
      rw [lookup_cons, lookup_cons, ih]
      by_cases hk : k = k'
      · have hne : k ≠ key := fun h' => h (h' ▸ hk)
        rw [if_pos hk, if_neg hne, if_pos hk]
      · rw [if_neg hk, if_neg hk]

/-- Setting a value changes what one key holds and nothing else. -/
theorem get?_insert (d : Dict α) (key k : Text) (v : α) :
    (d.insert key v).get? k = if k = key then some v else d.get? k :=
  lookup_insertEntry key k v d.entries

/-! ## Distinct keys -/

/-- The keys increase from entry to entry. -/
def Sorted (d : Dict α) : Prop := d.entries.Pairwise fun a b => a.1 < b.1

theorem mem_insertEntry {key : Text} {v : α} {e : Text × α} {entries : List (Text × α)}
    (h : e ∈ insertEntry key v entries) : e = (key, v) ∨ e ∈ entries := by
  induction entries with
  | nil => exact .inl (List.mem_singleton.1 h)
  | cons e' entries ih =>
    unfold insertEntry at h
    split at h
    · exact (List.mem_cons.1 h).imp_right (List.mem_cons_of_mem _)
    split at h
    · exact List.mem_cons.1 h
    · rcases List.mem_cons.1 h with rfl | h
      · exact .inr List.mem_cons_self
      · exact (ih h).imp_right (List.mem_cons_of_mem _)

theorem sorted_empty : (empty : Dict α).Sorted := .nil

theorem Sorted.insert (h : d.Sorted) (key : Text) (v : α) : (d.insert key v).Sorted := by
  obtain ⟨entries⟩ := d
  unfold Sorted Dict.insert at *
  simp only at h ⊢
  induction entries with
  | nil => exact List.pairwise_singleton _ _
  | cons e entries ih =>
    obtain ⟨k, v'⟩ := e
    obtain ⟨hfirst, hrest⟩ := List.pairwise_cons.1 h
    unfold insertEntry
    split
    · next hkey =>
      subst hkey
      exact .cons hfirst hrest
    split
    · next hlt =>
      refine .cons (fun e he => ?_) h
      rcases List.mem_cons.1 he with rfl | he
      · exact hlt
      · exact lt_trans hlt (hfirst e he)
    · next hne hlt =>
      refine .cons (fun e he => ?_) (ih hrest)
      rcases mem_insertEntry he with rfl | he
      · exact lt_of_le_of_ne (not_lt.1 hlt) (Ne.symm hne)
      · exact hfirst e he

theorem isSome_get? (d : Dict α) (key : Text) :
    (d.get? key).isSome = true ↔ key ∈ d.entries.map (·.1) := by
  rw [← Option.ne_none_iff_isSome, Ne, get?, List.lookup_eq_none_iff, List.mem_map]
  simp only [bne_iff_ne, not_forall, not_not, exists_prop]
  exact exists_congr fun e => and_congr_right fun _ => eq_comm

/-- A dictionary with sorted entries has as many of them as keys hold a value. -/
theorem Sorted.exists_keys (h : d.Sorted) :
    ∃ keys : Finset Text, (∀ key, key ∈ keys ↔ (d.get? key).isSome = true) ∧
      d.size = keys.card := by
  have hnodup : (d.entries.map (·.1)).Nodup := List.pairwise_map.2 (h.imp fun hlt => ne_of_lt hlt)
  refine ⟨(d.entries.map (·.1)).toFinset, fun key => ?_, ?_⟩
  · rw [List.mem_toFinset, isSome_get?]
  · rw [List.toFinset_card_of_nodup hnodup, List.length_map]
    rfl

/-! ## Dictionaries from lists -/

theorem ofList_concat (entries : List (Text × α)) (e : Text × α) :
    ofList (entries ++ [e]) = (ofList entries).insert e.1 e.2 := List.foldl_concat ..

theorem sorted_ofList (entries : List (Text × α)) : (ofList entries).Sorted := by
  induction entries using List.reverseRecOn with
  | nil => exact sorted_empty
  | append_singleton entries e ih =>
    rw [ofList_concat]
    exact ih.insert e.1 e.2

/-- Of several settings of a key the last one counts. -/
theorem get?_ofList (entries : List (Text × α)) (key : Text) :
    (ofList entries).get? key = entries.reverse.lookup key := by
  induction entries using List.reverseRecOn with
  | nil => rfl
  | append_singleton entries e ih =>
    rw [ofList_concat, get?_insert, ih, List.reverse_concat, lookup_cons]

theorem get?_ofList_eq_some_iff {entries : List (Text × α)} {key : Text} {v : α} :
    (ofList entries).get? key = some v ↔
      ∃ before after, entries = before ++ (key, v) :: after ∧ ∀ e ∈ after, e.1 ≠ key := by
  rw [get?_ofList, List.lookup_eq_some_iff]
  constructor
  · rintro ⟨after, before, heq, hafter⟩
    refine ⟨before.reverse, after.reverse, ?_, fun e he => ?_⟩
    · rw [← List.reverse_reverse entries, heq]
      simp
    · exact (bne_iff_ne.1 (hafter e (List.mem_reverse.1 he))).symm
  · rintro ⟨before, after, rfl, hafter⟩
    refine ⟨after.reverse, before.reverse, by simp, fun e he => ?_⟩
    exact bne_iff_ne.2 (hafter e (List.mem_reverse.1 he)).symm

theorem get?_ofList_eq_none_iff {entries : List (Text × α)} {key : Text} :
    (ofList entries).get? key = none ↔ ∀ e ∈ entries, e.1 ≠ key := by
  rw [get?_ofList, List.lookup_eq_none_iff]
  simp only [List.mem_reverse, bne_iff_ne, ne_comm]

end Dict

end HttpRouting
