import HttpRouting.Proofs.Dict
import HttpRouting.Store.Handles
import Mathlib.Logic.Relation

/-!
# Families of handles

Handles that were cloned from one another, through any number of steps, are a family. What handles
do is told by the history of clones and settings alone: the handles of a family share the number of
a store, those of different families do not (`History.Accounts.family_iff`), and a store holds what
was set through its family, in order. A read through a handle therefore returns what was set last
through any handle of its family, whatever was done through others (`shares`).
-/

namespace HttpRouting

/-! ## Readers by kind -/

namespace Value

/-- The kinds of values. -/
inductive Kind
  | str
  | bool
  | int
  | uint
  | float
  | time
  | duration
  | strs
  | strMap
  | strsMap
  | map
  deriving DecidableEq, Repr

def kind : Value → Kind
  | .str _ => .str
  | .bool _ => .bool
  | .int _ => .int
  | .uint _ => .uint
  | .float _ => .float
  | .time _ => .time
  | .duration _ => .duration
  | .strs _ => .strs
  | .strMap _ => .strMap
  | .strsMap _ => .strsMap
  | .map _ => .map

end Value

namespace Store

/-- What the reader of a kind returns for a key, as a value again. -/
def readAs (s : Store) (key : Text) : Value.Kind → Option Value
  | .str => (s.str? key).map .str
  | .bool => (s.bool? key).map .bool
  | .int => (s.int? key).map .int
  | .uint => (s.uint? key).map .uint
  | .float => (s.float? key).map .float
  | .time => (s.time? key).map .time
  | .duration => (s.duration? key).map .duration
  | .strs => (s.strs? key).map .strs
  | .strMap => (s.strMap? key).map .strMap
  | .strsMap => (s.strsMap? key).map .strsMap
  | .map => (s.map? key).map .map

/-- A value is returned by the reader of its kind and by no other. -/
theorem readAs_eq (s : Store) (key : Text) (kind : Value.Kind) :
    s.readAs key kind = (s.get? key).filter (·.kind = kind) := by
  cases kind <;>
    simp only [readAs, str?, bool?, int?, uint?, float?, time?, duration?, strs?, strMap?, strsMap?,
      map?] <;>
    rcases s.get? key with _ | v <;> first | rfl | (cases v <;> rfl)

end Store

namespace StoreHandles

/-! ## Steps and their history -/

/-- What is done with handles. -/
inductive Step
  | new
  | clone (handle : Nat)
  | set (handle : Nat) (key : Text) (value : Value)

def step (k : StoreHandles) : Step → StoreHandles
  | .new => k.new
  | .clone handle => k.clone handle
  | .set handle key value => k.set handle key value

def run (k : StoreHandles) (steps : List Step) : StoreHandles := steps.foldl step k

/-- What was done with handles, told without stores. A step on a handle that does not exist does
nothing. -/
structure History where
  /-- The number of handles so far. -/
  handles : Nat
  /-- Each clone with the handle that it was made from. -/
  clones : List (Nat × Nat)
  /-- What was set, through which handle and under which key. -/
  writes : List (Nat × Text × Value)

namespace History

/-- One handle, through which nothing has been set. -/
def initial : History := ⟨1, [], []⟩

def step (h : History) : Step → History
  | .new => { h with handles := h.handles + 1 }
  | .clone handle =>
    if handle < h.handles then
      { h with handles := h.handles + 1, clones := h.clones ++ [(h.handles, handle)] }
    else h
  | .set handle key value =>
    if handle < h.handles then { h with writes := h.writes ++ [(handle, key, value)] } else h

def run (h : History) (steps : List Step) : History := steps.foldl step h

/-- Whether two handles come from one another by cloning, in any number of steps there and back. -/
def Family (h : History) : Nat → Nat → Prop :=
  Relation.EqvGen fun clone handle => (clone, handle) ∈ h.clones

/-- Something was set under the key through the family of the handle. -/
def Written (h : History) (handle : Nat) (key : Text) : Prop :=
  ∃ other v, (other, key, v) ∈ h.writes ∧ h.Family handle other

/-- The value was set under the key through the family of the handle, and nothing was afterwards. -/
def Latest (h : History) (handle : Nat) (key : Text) (v : Value) : Prop :=
  ∃ before other after, h.writes = before ++ (other, key, v) :: after ∧ h.Family handle other ∧
    ∀ other' v', (other', key, v') ∈ after → ¬ h.Family handle other'

/-- What tells each handle as the one it was cloned from tells the families. -/
theorem eq_of_family {h : History} {α : Type} {f : Nat → α} (hf : ∀ c ∈ h.clones, f c.1 = f c.2)
    {a b : Nat} (hab : h.Family a b) : f a = f b := by
  induction hab with
  | rel a b hm => exact hf _ hm
  | refl a => rfl
  | symm a b _ ih => exact ih.symm
  | trans a b c _ _ ih ih' => exact ih.trans ih'

theorem Family.mono {h h' : History} (hclones : ∀ c ∈ h.clones, c ∈ h'.clones) {a b : Nat}
    (hab : h.Family a b) : h'.Family a b :=
  Relation.EqvGen.mono (fun _ _ => hclones _) _ _ hab

/-- The settings among the writes of a history that went to a class of handles. -/
def through (h : History) (p : Nat → Bool) : List (Text × Value) :=
  (h.writes.filter fun w => p w.1).map (·.2)

theorem get?_through_eq_some_iff {h : History} {p : Nat → Bool} {key : Text} {v : Value} :
    (Dict.ofList (h.through p)).get? key = some v ↔
      ∃ before other after, h.writes = before ++ (other, key, v) :: after ∧ p other = true ∧
        ∀ other' v', (other', key, v') ∈ after → ¬ p other' = true := by
  rw [Dict.get?_ofList_eq_some_iff, through]
  constructor
  · rintro ⟨before, after, heq, hafter⟩
    obtain ⟨front, back, hfilter, -, hback⟩ := List.map_eq_append_iff.1 heq
    obtain ⟨w, back, rfl, hw, rfl⟩ := List.map_eq_cons_iff.1 hback
    obtain ⟨front', back', hwrites, -, hback'⟩ := List.filter_eq_append_iff.1 hfilter
    obtain ⟨skipped, later, rfl, -, hp, rfl⟩ := List.filter_eq_cons_iff.1 hback'
    obtain ⟨other, rfl⟩ : ∃ other, w = (other, key, v) := ⟨w.1, Prod.ext rfl hw⟩
    refine ⟨front' ++ skipped, other, later, by rw [hwrites, List.append_assoc], hp, ?_⟩
    intro other' v' hm hp'
    exact hafter (key, v') (List.mem_map.2 ⟨_, List.mem_filter.2 ⟨hm, hp'⟩, rfl⟩) rfl
  · rintro ⟨before, other, after, heq, hp, hafter⟩
    refine ⟨(before.filter fun w => p w.1).map (·.2), (after.filter fun w => p w.1).map (·.2),
      ?_, ?_⟩
    · rw [heq, List.filter_append, List.filter_cons_of_pos (by exact hp), List.map_append,
        List.map_cons]
    · rintro _ he rfl
      obtain ⟨w, hw, rfl⟩ := List.mem_map.1 he
      obtain ⟨hw, hp'⟩ := List.mem_filter.1 hw
      exact hafter w.1 w.2.2 hw hp'

theorem get?_through_eq_none_iff {h : History} {p : Nat → Bool} {key : Text} :
    (Dict.ofList (h.through p)).get? key = none ↔
      ¬ ∃ other v, (other, key, v) ∈ h.writes ∧ p other = true := by
  rw [Dict.get?_ofList_eq_none_iff, through]
  constructor
  · rintro hnone ⟨other, v, hm, hp⟩
    exact hnone (key, v) (List.mem_map.2 ⟨_, List.mem_filter.2 ⟨hm, hp⟩, rfl⟩) rfl
  · rintro hnone _ he rfl
    obtain ⟨w, hw, rfl⟩ := List.mem_map.1 he
    obtain ⟨hw, hp⟩ := List.mem_filter.1 hw
    exact hnone ⟨w.1, w.2.2, hw, hp⟩

theorem through_congr {h : History} {p q : Nat → Bool} (hpq : ∀ w ∈ h.writes, p w.1 = q w.1) :
    h.through p = h.through q :=
  congrArg (List.map _) (List.filter_congr hpq)

/-! ## What every step keeps -/

/-- The stores and handles are as the history tells: clones share the number of a store, handles
that share one are a family, and each store holds what was set through its handles. -/
structure Accounts (h : History) (k : StoreHandles) : Prop where
  length : k.handles.length = h.handles
  number_lt : ∀ i ∈ k.handles, i < k.stores.length
  clones_lt : ∀ c ∈ h.clones, c.1 < h.handles ∧ c.2 < h.handles
  writes_lt : ∀ w ∈ h.writes, w.1 < h.handles
  same : ∀ c ∈ h.clones, k.handles[c.1]? = k.handles[c.2]?
  family : ∀ {a b i}, k.handles[a]? = some i → k.handles[b]? = some i → h.Family a b
  store : ∀ {i s}, k.stores[i]? = some s →
    s = Dict.ofList (h.through fun handle => k.handles[handle]? = some i)

namespace Accounts

variable {h : History} {k : StoreHandles} {a b i : Nat}

theorem family_iff (hk : h.Accounts k) (ha : k.handles[a]? = some i) :
    h.Family a b ↔ k.handles[b]? = some i :=
  ⟨fun hab => (eq_of_family hk.same hab).symm.trans ha, fun hb => hk.family ha hb⟩

/-- A further handle does not change what the others stand for. -/
theorem getElem?_push (hk : h.Accounts k) (j : Nat) (ha : a < h.handles) :
    (k.handles ++ [j])[a]? = k.handles[a]? :=
  List.getElem?_append_left (hk.length.symm ▸ ha)

theorem getElem?_push_cases (hk : h.Accounts k) {j : Nat} (ha : (k.handles ++ [j])[a]? = some i) :
    k.handles[a]? = some i ∨ a = h.handles ∧ i = j := by
  rw [List.getElem?_append] at ha
  split at ha
  · exact .inl ha
  · rw [List.getElem?_singleton] at ha
    split at ha
    · cases ha
      exact .inr ⟨by have := hk.length; omega, rfl⟩
    · cases ha

theorem through_push (hk : h.Accounts k) (j i : Nat) :
    (h.through fun handle => (k.handles ++ [j])[handle]? = some i) =
      h.through fun handle => k.handles[handle]? = some i :=
  through_congr fun w hw => by rw [hk.getElem?_push j (hk.writes_lt w hw)]

/-- Before there are handles there is nothing to account for. -/
theorem nothing : (⟨0, [], []⟩ : History).Accounts ⟨[], []⟩ :=
  ⟨rfl, nofun, nofun, nofun, nofun, nofun, nofun⟩

theorem new (hk : h.Accounts k) : (h.step .new).Accounts k.new where
  length := by
    show (k.handles ++ [_]).length = h.handles + 1
    rw [List.length_append, hk.length, List.length_singleton]
  number_lt := by
    intro i hi
    show i < (k.stores ++ [_]).length
    rw [List.length_append, List.length_singleton]
    rcases List.mem_append.1 hi with hi | hi
    · exact Nat.lt_succ_of_lt (hk.number_lt i hi)
    · rw [List.mem_singleton.1 hi]
      exact Nat.lt_succ_self _
  clones_lt := fun c hc => (hk.clones_lt c hc).imp Nat.lt_succ_of_lt Nat.lt_succ_of_lt
  writes_lt := fun w hw => Nat.lt_succ_of_lt (hk.writes_lt w hw)
  same := by
    intro c hc
    obtain ⟨h1, h2⟩ := hk.clones_lt c hc
    exact ((hk.getElem?_push _ h1).trans (hk.same c hc)).trans (hk.getElem?_push _ h2).symm
  family := by
    -- The number of the new store is that of no earlier handle.
    have hfresh : ∀ {a}, k.handles[a]? ≠ some k.stores.length := fun ha =>
      Nat.lt_irrefl _ (hk.number_lt _ (List.mem_of_getElem? ha))
    intro a b i ha hb
    rcases hk.getElem?_push_cases ha with ha | ⟨rfl, rfl⟩
    · rcases hk.getElem?_push_cases hb with hb | ⟨rfl, rfl⟩
      · exact hk.family ha hb
      · exact absurd ha hfresh
    · rcases hk.getElem?_push_cases hb with hb | ⟨rfl, -⟩
      · exact absurd hb hfresh
      · exact .refl _
  store := by
    intro i s hs
    show s = Dict.ofList (h.through fun handle => (k.handles ++ [_])[handle]? = some i)
    rw [hk.through_push]
    by_cases hi : i < k.stores.length
    · exact hk.store ((List.getElem?_append_left hi).symm.trans hs)
    · have hnone : h.through (fun handle => k.handles[handle]? = some i) = [] := by
        refine List.map_eq_nil_iff.2 (List.filter_eq_nil_iff.2 fun w _ hw => hi ?_)
        exact hk.number_lt i (List.mem_of_getElem? (of_decide_eq_true hw))
      rw [hnone]
      change (k.stores ++ [_])[i]? = _ at hs
      rw [List.getElem?_append_right (Nat.le_of_not_lt hi)] at hs
      exact List.mem_singleton.1 (List.mem_of_getElem? hs)

/-- A handle has a number exactly if the history has the handle. -/
theorem number_cases (hk : h.Accounts k) (handle : Nat) :
    (handle < h.handles ∧ ∃ j, k.handles[handle]? = some j) ∨
      ¬ handle < h.handles ∧ k.handles[handle]? = none := by
  rw [← hk.length]
  by_cases hlt : handle < k.handles.length
  · exact .inl ⟨hlt, _, List.getElem?_eq_getElem hlt⟩
  · exact .inr ⟨hlt, List.getElem?_eq_none (Nat.le_of_not_lt hlt)⟩

theorem clone (hk : h.Accounts k) (handle : Nat) :
    (h.step (.clone handle)).Accounts (k.clone handle) := by
  rcases hk.number_cases handle with ⟨hlt, j, hj⟩ | ⟨hlt, hnone⟩
  · rw [step, if_pos hlt, StoreHandles.clone, hj, Option.toList_some]
    have hclones := fun c (hc : c ∈ h.clones) => List.mem_append_left [(h.handles, handle)] hc
    exact {
      length := by rw [List.length_append, hk.length, List.length_singleton]
      number_lt := by
        intro i hi
        rcases List.mem_append.1 hi with hi | hi
        · exact hk.number_lt i hi
        · rw [List.mem_singleton.1 hi]
          exact hk.number_lt j (List.mem_of_getElem? hj)
      clones_lt := by
        intro c hc
        rcases List.mem_append.1 hc with hc | hc
        · exact (hk.clones_lt c hc).imp Nat.lt_succ_of_lt Nat.lt_succ_of_lt
        · rw [List.mem_singleton.1 hc]
          exact ⟨Nat.lt_succ_self _, Nat.lt_succ_of_lt hlt⟩
      writes_lt := fun w hw => Nat.lt_succ_of_lt (hk.writes_lt w hw)
      same := by
        intro c hc
        rcases List.mem_append.1 hc with hc | hc
        · obtain ⟨h1, h2⟩ := hk.clones_lt c hc
          exact ((hk.getElem?_push _ h1).trans (hk.same c hc)).trans (hk.getElem?_push _ h2).symm
        · rw [List.mem_singleton.1 hc, hk.getElem?_push j hlt, hj, ← hk.length]
          exact List.getElem?_concat_length
      family := by
        have hnew : Family ⟨h.handles + 1, h.clones ++ [(h.handles, handle)], h.writes⟩
            h.handles handle :=
          .rel _ _ (List.mem_append_right _ (List.mem_singleton_self _))
        intro a b i ha hb
        rcases hk.getElem?_push_cases ha with hold | ⟨rfl, rfl⟩
        · rcases hk.getElem?_push_cases hb with hold' | ⟨rfl, rfl⟩
          · exact (hk.family hold hold').mono hclones
          · exact .trans _ _ _ ((hk.family hold hj).mono hclones) hnew.symm
        · rcases hk.getElem?_push_cases hb with hold' | ⟨rfl, -⟩
          · exact .trans _ _ _ hnew ((hk.family hj hold').mono hclones)
          · exact .refl _
      store := by
        intro i s hs
        refine (hk.store hs).trans (congrArg Dict.ofList ?_)
        exact (hk.through_push j i).symm }
  · rw [step, if_neg hlt, StoreHandles.clone, hnone, Option.toList_none, List.append_nil]
    exact hk

theorem set (hk : h.Accounts k) (handle : Nat) (key : Text) (v : Value) :
    (h.step (.set handle key v)).Accounts (k.set handle key v) := by
  rcases hk.number_cases handle with ⟨hlt, j, hj⟩ | ⟨hlt, hnone⟩
  · rw [step, if_pos hlt]
    simp only [StoreHandles.set, hj]
    refine { hk with number_lt := ?_, writes_lt := ?_, store := ?_ }
    · intro i hi
      rw [List.length_modify]
      exact hk.number_lt i hi
    · intro w hw
      rcases List.mem_append.1 hw with hw | hw
      · exact hk.writes_lt w hw
      · rw [List.mem_singleton.1 hw]
        exact hlt
    · intro i s hs
      rw [List.getElem?_modify] at hs
      obtain ⟨s', hs', rfl⟩ := Option.map_eq_some_iff.1 hs
      rw [through, List.filter_append, List.map_append]
      by_cases hi : j = i
      · subst hi
        rw [if_pos rfl, List.filter_cons_of_pos (by simp [hj]), List.filter_nil]
        rw [hk.store hs']
        exact (Dict.ofList_concat _ (key, v)).symm
      · rw [if_neg hi, List.filter_cons_of_neg (by simp [hj, hi]), List.filter_nil, List.map_nil,
          List.append_nil]
        exact hk.store hs'
  · rw [step, if_neg hlt]
    simp only [StoreHandles.set, hnone]
    exact hk

theorem step (hk : h.Accounts k) (x : Step) : (h.step x).Accounts (k.step x) := by
  cases x with
  | new => exact hk.new
  | clone handle => exact hk.clone handle
  | set handle key v => exact hk.set handle key v

theorem run (hk : h.Accounts k) (steps : List Step) : (h.run steps).Accounts (k.run steps) := by
  induction steps generalizing h k with
  | nil => exact hk
  | cons x steps ih => exact ih (hk.step x)

theorem ofSteps (steps : List Step) :
    (History.initial.run steps).Accounts (StoreHandles.initial.run steps) :=
  nothing.new.run steps

/-! ## Reads -/

theorem exists_store (hk : h.Accounts k) (ha : a < h.handles) :
    ∃ i, k.handles[a]? = some i ∧
      k.store? a = some (Dict.ofList (h.through fun handle => k.handles[handle]? = some i)) := by
  rcases hk.number_cases a with ⟨-, i, hi⟩ | ⟨hnot, -⟩
  · have hlt := hk.number_lt i (List.mem_of_getElem? hi)
    have hs := List.getElem?_eq_getElem hlt
    refine ⟨i, hi, ?_⟩
    rw [← hk.store hs, ← hs, store?, hi]
    rfl
  · exact absurd ha hnot

/-- A setting through another family leaves the store of a handle as it is. -/
theorem store?_set (hk : h.Accounts k) {other : Nat} (hother : ¬ h.Family a other) (key : Text)
    (v : Value) : (k.set other key v).store? a = k.store? a := by
  rcases hk.number_cases other with ⟨-, j, hj⟩ | ⟨-, hnone⟩
  · simp only [StoreHandles.set, hj, store?]
    rcases hk.number_cases a with ⟨-, i, hi⟩ | ⟨-, hnone⟩
    · have hne : j ≠ i := fun h => hother (hk.family hi (h ▸ hj))
      rw [hi]
      show (k.stores.modify j _)[i]? = k.stores[i]?
      simp only [List.getElem?_modify, if_neg hne]
      exact Option.map_id'
    · rw [hnone]
      rfl
  · simp only [StoreHandles.set, hnone]

end Accounts

end History

/-- What a handle reads in its store, told by the history of the handles. -/
structure Reads (k : StoreHandles) (h : History) (handle : Nat) (s : Store) : Prop where
  store : k.store? handle = some s
  /-- Under a key is what was set last under it through the family of the handle. -/
  latest : ∀ key v, s.get? key = some v ↔ h.Latest handle key v
  absent : ∀ key, s.get? key = none ↔ ¬ h.Written handle key
  contains : ∀ key, s.contains key = true ↔ h.Written handle key
  /-- A value that has to be there is returned, or the error names the key. -/
  required : ∀ key v, s.require key = .ok v ↔ s.get? key = some v
  unset : ∀ key e, s.require key = .error e ↔ s.get? key = none ∧ e = .unset key
  /-- Of the readers by kind, the one of the kind of the value returns it, and no other returns
  anything. -/
  kind : ∀ key v, s.get? key = some v →
    ∀ kind, s.readAs key kind = if kind = v.kind then some v else none
  noKind : ∀ key, s.get? key = none → ∀ kind, s.readAs key kind = none
  /-- There are as many values as keys under which something was set through the family. -/
  size : ∃ keys : Finset Text, (∀ key, key ∈ keys ↔ h.Written handle key) ∧ s.size = keys.card
  /-- What is set through another family leaves the store as it is. -/
  apart : ∀ other key v, ¬ h.Family handle other → (k.set other key v).store? handle = some s

/-- Whatever is created, cloned and set, in whatever order, every handle reads its store, and no
other handle does. -/
theorem shares (steps : List Step) :
    let k := initial.run steps
    let h := History.initial.run steps
    (∀ handle, h.handles ≤ handle → k.store? handle = none) ∧
    ∀ handle < h.handles, ∃ s, k.Reads h handle s := by
  intro k h
  have hk : h.Accounts k := .ofSteps steps
  refine ⟨fun handle hle => ?_, fun handle hlt => ?_⟩
  · rw [store?, List.getElem?_eq_none (hk.length.symm ▸ hle)]
    rfl
  · obtain ⟨i, hi, hs⟩ := hk.exists_store hlt
    generalize hstore : Dict.ofList (h.through fun handle => k.handles[handle]? = some i) = s at hs
    have hfamily : ∀ other, decide (k.handles[other]? = some i) = true ↔ h.Family handle other :=
      fun other => decide_eq_true_iff.trans (hk.family_iff hi).symm
    have hnone : ∀ key, s.get? key = none ↔ ¬ h.Written handle key := by
      intro key
      rw [← hstore, History.get?_through_eq_none_iff]
      simp only [hfamily]
      exact .rfl
    have hcontains : ∀ key, (s.get? key).isSome = true ↔ h.Written handle key := by
      intro key
      rw [← Option.ne_none_iff_isSome, Ne, hnone, not_not]
    obtain ⟨keys, hkeys, hsize⟩ : ∃ keys : Finset Text, _ :=
      hstore ▸ (Dict.sorted_ofList _).exists_keys
    refine ⟨s, hs, fun key v => ?latest, hnone, hcontains, fun key v => ?required,
      fun key e => ?unset, fun key v hv kind => ?kind, fun key hv kind => ?noKind,
      ⟨keys, fun key => (hkeys key).trans (hcontains key), hsize⟩,
      fun other key v hother => (hk.store?_set hother key v).trans hs⟩
    case latest =>
      rw [← hstore, History.get?_through_eq_some_iff]
      simp only [hfamily]
      exact .rfl
    case required =>
      rw [Store.require]
      cases s.get? key <;> simp
    case unset =>
      rw [Store.require]
      cases s.get? key <;> simp [eq_comm]
    case kind =>
      rw [Store.readAs_eq, hv]
      by_cases hkind : kind = v.kind <;> simp [Option.filter, hkind, eq_comm]
    case noKind =>
      rw [Store.readAs_eq, hv]
      rfl

end StoreHandles

end HttpRouting
