import HttpRouting.Proofs.Router.Insertion

/-!
# Walks through a tree

The entries of a tree stand in the order in which a walk tries them: a walk of a well-formed tree
ends at the first entry whose key takes the path (`Tree.walk_eq`). The values that it pushes for a
wildcard that leads nowhere are taken back, so that a walk that fails leaves them as they were. In a
tree that grew by insertions of patterns (`Tree.Grown.walk_cases`), a walk succeeds exactly on the
paths of the walkable ones, and captures what their expressions capture.
-/

namespace HttpRouting

variable {entries entries' : List (Key × Route)} {path path' : Text} {values : List Text}

/-! ## The first entry -/

/-- The first entry whose key takes the path: its route, with the captures. -/
def firstTaken (entries : List (Key × Route)) (path : Text) : Option (Route × List Text) :=
  entries.findSome? fun e => (e.1.capture? path).map (e.2, ·)

/-- No key of the entries takes the path. -/
def Stuck (entries : List (Key × Route)) (path : Text) : Prop :=
  ∀ key r, (key, r) ∈ entries → Key.capture? key path = none

/-- How a walk ends that started with some values: the captures come behind them. -/
def walkEnd (values : List Text) : Option (Route × List Text) → Option Route × List Text
  | some (r, captured) => (some r, values ++ captured)
  | none => (none, values)

theorem firstTaken_append (entries entries' : List (Key × Route)) (path : Text) :
    firstTaken (entries ++ entries') path =
      (firstTaken entries path).or (firstTaken entries' path) :=
  List.findSome?_append

theorem firstTaken_before {key : Key} {front : List Text}
    (hkey : ∀ k, Key.capture? (key ++ k) path = (Key.capture? k path').map (front ++ ·)) :
    firstTaken (key.before entries) path =
      (firstTaken entries path').map fun (r, captured) => (r, front ++ captured) := by
  unfold firstTaken Key.before
  rw [List.findSome?_map, List.map_findSome?]
  congr 1
  funext e
  simp only [Function.comp_apply, hkey, Option.map_map]
  rfl

theorem firstTaken_eq_some {r : Route} {captured : List Text}
    (h : firstTaken entries path = some (r, captured)) :
    ∃ key, (key, r) ∈ entries ∧ Key.capture? key path = some captured := by
  obtain ⟨⟨key, r'⟩, hm, he⟩ := List.exists_of_findSome?_eq_some h
  obtain ⟨captured', hcapture, heq⟩ := Option.map_eq_some_iff.1 he
  cases heq
  exact ⟨key, hm, hcapture⟩

namespace Stuck

theorem before_of_forall {key : Key} (hkey : ∀ k, Key.capture? (key ++ k) path = none) :
    Stuck (key.before entries) path := by
  intro key' r hm
  obtain ⟨k, -, rfl⟩ := Key.mem_before.1 hm
  exact hkey k

theorem firstTaken_eq (h : Stuck entries path) : firstTaken entries path = none :=
  List.findSome?_eq_none_iff.2 fun e he => Option.map_eq_none_iff.2 (h e.1 e.2 he)

/-- Entries that do not take the path may be left out, in front or behind. -/
theorem firstTaken_append_left (h : Stuck entries path) (entries' : List (Key × Route)) :
    firstTaken (entries ++ entries') path = firstTaken entries' path := by
  rw [firstTaken_append, h.firstTaken_eq, Option.none_or]

theorem firstTaken_append_right (h : Stuck entries' path) (entries : List (Key × Route)) :
    firstTaken (entries ++ entries') path = firstTaken entries path := by
  rw [firstTaken_append, h.firstTaken_eq, Option.or_none]

end Stuck

theorem stuck_of_firstTaken (h : firstTaken entries path = none) : Stuck entries path :=
  fun key r hm => Option.map_eq_none_iff.1 (List.findSome?_eq_none_iff.1 h (key, r) hm)

/-- An entry whose key does not take the path makes no difference. -/
theorem Adds.firstTaken_eq {key : Key} {r : Route} (h : Adds (key, r) entries entries')
    (hkey : key.capture? path = none) : firstTaken entries' path = firstTaken entries path := by
  obtain ⟨front, back, rfl, rfl⟩ := h
  have hcons : firstTaken ((key, r) :: back) path = firstTaken back path := by
    unfold firstTaken
    rw [List.findSome?_cons, hkey]
    rfl
  rw [firstTaken_append, firstTaken_append, hcons]

/-! ## Text -/

namespace TextEdges

/-- What a key behind an edge captures if the path starts with the text of the edge. -/
theorem capture?_of_some {fragment left : Text}
    (h : Text.dropStart? (· == ·) fragment (Text.lower path) = some left) (key : Key) :
    Key.capture? (.ofText fragment ++ key) path =
      (key.capture? (path.drop fragment.length)).map ([] ++ ·) := by
  rw [Key.capture?_ofText, h, Option.bind_some]
  exact Option.map_id'.symm

theorem capture?_of_none {fragment : Text}
    (h : Text.dropStart? (· == ·) fragment (Text.lower path) = none) (key : Key) :
    Key.capture? (.ofText fragment ++ key) path = none := by
  rw [Key.capture?_ofText, h, Option.bind_none]

/-- Behind edges that the path does not start with, no key takes it. -/
theorem stuck_of_none {e : TextEdges}
    (h : ∀ f ∈ e.fragments, Text.dropStart? (· == ·) f (Text.lower path) = none) :
    Stuck e.entries path := by
  match e with
  | .nil => exact nofun
  | .cons fragment child rest =>
    have hrest := stuck_of_none fun f hf => h f (List.mem_cons_of_mem _ hf)
    have hchild : Stuck ((Key.ofText fragment).before child.entries) path :=
      .before_of_forall (capture?_of_none (h fragment List.mem_cons_self))
    exact fun key r hm => (List.mem_append.1 hm).elim (hchild key r) (hrest key r)

theorem fragment_ne_nil {e : TextEdges} (he : e.WF) {f : Text} (hf : f ∈ e.fragments) : f ≠ [] := by
  match e with
  | .nil => cases hf
  | .cons fragment child rest =>
    obtain ⟨hfragment, -, hrest, -⟩ := he
    rcases List.mem_cons.1 hf with rfl | hf
    · exact hfragment
    · exact fragment_ne_nil hrest hf

theorem stuck_nil {e : TextEdges} (he : e.WF) : Stuck e.entries [] := by
  refine stuck_of_none fun f hf => ?_
  obtain ⟨c, fs, rfl⟩ := List.exists_cons_of_ne_nil (fragment_ne_nil he hf)
  rfl

/-- Edges part at their first characters: once the path starts with one, it starts with no other. -/
theorem stuck_rest {fragment left : Text} {child : Tree} {rest : TextEdges}
    (he : (TextEdges.cons fragment child rest).WF)
    (h : Text.dropStart? (· == ·) fragment (Text.lower path) = some left) :
    Stuck rest.entries path := by
  obtain ⟨hfragment, -, hrest, hheads⟩ := he
  refine stuck_of_none fun f hf => ?_
  cases hd : Text.dropStart? (· == ·) f (Text.lower path) with
  | none => rfl
  | some other =>
    rw [Text.dropStart?_beq_eq_some_iff] at h hd
    obtain ⟨c, fs, rfl⟩ := List.exists_cons_of_ne_nil hfragment
    obtain ⟨d, gs, rfl⟩ := List.exists_cons_of_ne_nil (fragment_ne_nil hrest hf)
    rw [h, List.cons_append, List.cons_append] at hd
    refine absurd ?_ (hheads _ hf)
    rw [List.head?_cons, List.head?_cons, (List.cons.inj hd).1]

theorem walk_of_some {fragment left : Text} {child : Tree} {rest : TextEdges}
    (h : Text.dropStart? (· == ·) fragment (Text.lower path) = some left) :
    (cons fragment child rest).walk (Text.lower path) path values =
      child.walk (Text.lower (path.drop fragment.length)) (path.drop fragment.length) values := by
  have hleft : Text.lower (path.drop fragment.length) = left := by
    rw [Text.lower_drop, Text.dropStart?_beq_eq_some_iff.1 h, List.drop_left]
  rw [walk, h, hleft]

theorem walk_of_none {fragment : Text} {child : Tree} {rest : TextEdges}
    (h : Text.dropStart? (· == ·) fragment (Text.lower path) = none) :
    (cons fragment child rest).walk (Text.lower path) path values =
      rest.walk (Text.lower path) path values := by
  rw [walk, h]

end TextEdges

/-! ## Wildcards -/

namespace Path

theorem cutSegment_lower (t : Text) :
    cutSegment (Text.lower t) = (Text.lower (cutSegment t).1, Text.lower (cutSegment t).2) := by
  have hslash : ∀ c : Char, decide (c.toLower ≠ '/') = decide (c ≠ '/') := fun c => by
    simp [Text.toLower_eq_iff (d := '/') (by decide) c]
  rw [cutSegment, Text.takeWhile_lower hslash, Text.dropWhile_lower hslash]
  rfl

theorem cutSegment_append (t : Text) : (cutSegment t).1 ++ (cutSegment t).2 = t :=
  List.takeWhile_append_dropWhile

/-- The length of its first segment tells where a path is cut. -/
theorem take_cutSegment (t : Text) : t.take (cutSegment t).1.length = (cutSegment t).1 :=
  (congrArg (List.take _) (cutSegment_append t).symm).trans List.take_left

theorem drop_cutSegment (t : Text) : t.drop (cutSegment t).1.length = (cutSegment t).2 :=
  (congrArg (List.drop _) (cutSegment_append t).symm).trans List.drop_left

end Path

namespace WildEdges

variable {shape : Shape}

theorem capture?_of_accepts (h : shape.accepts (Path.cutSegment path).1 = true) (written : Text)
    (key : Key) :
    Key.capture? ([.wild written shape] ++ key) path =
      (key.capture? (Path.cutSegment path).2).map ([(Path.cutSegment path).1] ++ ·) :=
  if_pos h

theorem capture?_of_not_accepts (h : ¬ shape.accepts (Path.cutSegment path).1 = true)
    (written : Text) (key : Key) : Key.capture? ([.wild written shape] ++ key) path = none :=
  if_neg h

/-- No wildcard takes an empty segment. -/
theorem stuck_nil (e : WildEdges) : Stuck e.entries [] := by
  match e with
  | .nil => exact nofun
  | .cons written shape child rest =>
    have hchild : Stuck (Key.before [.wild written shape] child.entries) [] := by
      refine .before_of_forall (capture?_of_not_accepts ?_ written)
      rw [Path.cutSegment, List.takeWhile_nil, Shape.accepts_nil]
      exact Bool.false_ne_true
    exact fun key r hm => (List.mem_append.1 hm).elim (hchild key r) (stuck_nil rest key r)

theorem walk_of_found (h : shape.accepts (Path.cutSegment path).1 = true) (written : Text)
    {child : Tree} (rest : WildEdges) {r : Route} {after : List Text}
    (hchild : child.walk (Text.lower (Path.cutSegment path).2) (Path.cutSegment path).2
      (values ++ [(Path.cutSegment path).1]) = (some r, after)) :
    (cons written shape child rest).walk (Text.lower path) path values = (some r, after) := by
  simp only [walk, Path.cutSegment_lower, Shape.accepts_lower, if_pos h, Text.length_lower,
    Path.take_cutSegment, Path.drop_cutSegment, hchild]

/-- The value pushed for a wildcard that leads nowhere is the last one again, and is taken back. -/
theorem walk_of_stuck (h : shape.accepts (Path.cutSegment path).1 = true) (written : Text)
    {child : Tree} (rest : WildEdges)
    (hchild : child.walk (Text.lower (Path.cutSegment path).2) (Path.cutSegment path).2
      (values ++ [(Path.cutSegment path).1]) = (none, values ++ [(Path.cutSegment path).1])) :
    (cons written shape child rest).walk (Text.lower path) path values =
      rest.walk (Text.lower path) path values := by
  simp only [walk, Path.cutSegment_lower, Shape.accepts_lower, if_pos h, Text.length_lower,
    Path.take_cutSegment, Path.drop_cutSegment, hchild, List.dropLast_concat]

theorem walk_of_not_accepts (h : ¬ shape.accepts (Path.cutSegment path).1 = true) (written : Text)
    (child : Tree) (rest : WildEdges) (values : List Text) :
    (cons written shape child rest).walk (Text.lower path) path values =
      rest.walk (Text.lower path) path values := by
  simp only [walk, Path.cutSegment_lower, Shape.accepts_lower, if_neg h]

end WildEdges

/-! ## The walk -/

mutual

/-- A walk of a well-formed tree ends at the first entry whose key takes the path. The induction
follows the tree; the values differ from place to place, since a wildcard pushes one before it goes
on. -/
theorem Tree.walk_eq {t : Tree} (ht : t.WF) (path : Text) (values : List Text) :
    t.walk (Text.lower path) path values = walkEnd values (firstTaken t.entries path) := by
  cases t with
  | mk texts wilds route =>
    obtain ⟨htexts, hwilds⟩ := ht
    rw [Tree.walk, Tree.entries, List.append_assoc]
    by_cases hpath : path = []
    · subst hpath
      rw [if_pos Text.lower_nil]
      cases route with
      | some r => exact congrArg (some r, ·) (List.append_nil values).symm
      | none =>
        rw [Option.toList_none, List.map_nil, List.nil_append,
          (TextEdges.stuck_nil htexts).firstTaken_append_left,
          (WildEdges.stuck_nil wilds).firstTaken_eq]
        rfl
    · have hroute : Stuck (route.toList.map ([], ·)) path := by
        intro key r hm
        obtain ⟨_, -, hkey⟩ := List.mem_map.1 hm
        cases hkey
        exact if_neg hpath
      rw [if_neg (mt Text.lower_eq_nil.1 hpath), hroute.firstTaken_append_left, firstTaken_append,
        TextEdges.walk_eq htexts path values]
      cases firstTaken texts.entries path with
      | some e => rfl
      | none => exact WildEdges.walk_eq hwilds path values

theorem TextEdges.walk_eq {e : TextEdges} (he : e.WF) (path : Text) (values : List Text) :
    e.walk (Text.lower path) path values = walkEnd values (firstTaken e.entries path) := by
  cases e with
  | nil => rfl
  | cons fragment child rest =>
    rw [TextEdges.entries]
    cases hd : Text.dropStart? (· == ·) fragment (Text.lower path) with
    | some left =>
      rw [TextEdges.walk_of_some hd, (TextEdges.stuck_rest he hd).firstTaken_append_right,
        firstTaken_before (TextEdges.capture?_of_some hd), Tree.walk_eq he.2.1]
      exact congrArg _ Option.map_id'.symm
    | none =>
      have hchild : Stuck ((Key.ofText fragment).before child.entries) path :=
        .before_of_forall (TextEdges.capture?_of_none hd)
      rw [TextEdges.walk_of_none hd, hchild.firstTaken_append_left]
      exact TextEdges.walk_eq he.2.2.1 path values

theorem WildEdges.walk_eq {e : WildEdges} (he : e.WF) (path : Text) (values : List Text) :
    e.walk (Text.lower path) path values = walkEnd values (firstTaken e.entries path) := by
  cases e with
  | nil => rfl
  | cons written shape child rest =>
    rw [WildEdges.entries]
    have hrest := WildEdges.walk_eq he.2.2.1 path values
    by_cases haccepts : shape.accepts (Path.cutSegment path).1 = true
    · have hchild := Tree.walk_eq he.2.1 (Path.cutSegment path).2
        (values ++ [(Path.cutSegment path).1])
      rw [firstTaken_append, firstTaken_before (WildEdges.capture?_of_accepts haccepts written)]
      cases hfirst : firstTaken child.entries (Path.cutSegment path).2 with
      | some e =>
        rw [hfirst] at hchild
        rw [WildEdges.walk_of_found haccepts written rest hchild, List.append_assoc]
        rfl
      | none =>
        rw [hfirst] at hchild
        rw [WildEdges.walk_of_stuck haccepts written rest hchild]
        exact hrest
    · have hchild : Stuck (Key.before [.wild written shape] child.entries) path :=
        .before_of_forall (WildEdges.capture?_of_not_accepts haccepts written)
      rw [WildEdges.walk_of_not_accepts haccepts, hchild.firstTaken_append_left]
      exact hrest

end

/-- A path that the key of a new route does not take is walked as before, however the tree was
split for the route. -/
theorem Tree.lookup_insert {t : Tree} (ht : t.WF) {r : Route} {key : Key} (hk : key.Regular)
    (hinsert : (t.insert r key).2 = none) (hkey : key.capture? path = none) :
    (t.insert r key).1.lookup path = t.lookup path := by
  have hadds := Tree.adds_insert ht hk hinsert
  rw [Tree.lookup, Tree.lookup, Tree.walk_eq (Tree.wf_insert r ht hk), Tree.walk_eq ht,
    hadds.firstTaken_eq hkey]

/-! ## Walks and expressions -/

namespace Tree.Grown

variable {routes : List Route} {t : Tree}

/-- A walk ends at an inserted route whose key takes the path, or no key of such a route does. -/
theorem walk_cases (ht : t.Grown routes) (path : Text) (values : List Text) :
    (∃ r ∈ routes, ∃ captured, r.pattern.key.capture? path = some captured ∧
      t.walk (Text.lower path) path values = (some r, values ++ captured)) ∨
    (∀ r ∈ routes, r.pattern.key.capture? path = none) ∧
      t.walk (Text.lower path) path values = (none, values) := by
  have hwalk := Tree.walk_eq ht.wf path values
  cases hfirst : firstTaken t.entries path with
  | some e =>
    obtain ⟨key, hm, hcapture⟩ := firstTaken_eq_some hfirst
    obtain ⟨hr, rfl⟩ := ht.mem_entries.1 hm
    rw [hfirst] at hwalk
    exact .inl ⟨e.1, hr, e.2, hcapture, hwalk⟩
  | none =>
    have hstuck := stuck_of_firstTaken hfirst
    rw [hfirst] at hwalk
    exact .inr ⟨fun r hr => hstuck r.pattern.key r (ht.mem_entries.2 ⟨hr, rfl⟩), hwalk⟩

/-- In a tree of inserted patterns a walk succeeds exactly on the paths that the expression of a
walkable one matches, whatever values were captured before. The route at its end is one of those;
the walk has captured a value for each of its names, and the parameters are those that its
expression captures, decoded or not. A walk that fails leaves the values as they were. -/
theorem walk_agrees (ht : t.Grown routes) (path : Text) (values : List Text) :
    ((t.walk (Text.lower path) path values).1.isSome = true ↔
      ∃ r ∈ routes, r.pattern.isWalkable = true ∧ r.pattern.regex.isMatch path = true) ∧
    (∀ r after, t.walk (Text.lower path) path values = (some r, after) →
      r ∈ routes ∧ r.pattern.isWalkable = true ∧ r.pattern.regex.isMatch path = true ∧
      ∃ captured, after = values ++ captured ∧ captured.length = r.names.length ∧
        (r.paramsOf captured).map Param.value = captured ∧
        r.capture? path false = some (r.paramsOf captured) ∧
        r.capture? path true = some (r.paramsOf captured)) ∧
    ∀ after, t.walk (Text.lower path) path values = (none, after) → after = values := by
  have hmatch : ∀ r : Route, (r.pattern.key.capture? path).isSome = true ↔
      r.pattern.isWalkable = true ∧ r.pattern.regex.isMatch path = true := fun r => by
    rw [Pattern.isSome_capture?_key, Bool.and_eq_true]
  rcases ht.walk_cases path values with ⟨r, hr, captured, hcapture, hwalk⟩ | ⟨hstuck, hwalk⟩
  · have hr' := (hmatch r).1 (Option.isSome_of_eq_some hcapture)
    have hlength : captured.length = r.names.length :=
      (Key.length_of_capture? hcapture).trans (Pattern.arity_key hr'.1)
    rw [hwalk]
    refine ⟨iff_of_true rfl ⟨r, hr, hr'⟩, fun r' after h => ?_, nofun⟩
    cases h
    exact ⟨hr, hr'.1, hr'.2, captured, rfl, hlength, Route.values_paramsOf hlength,
      Route.capture?_of_key hcapture false, Route.capture?_of_key hcapture true⟩
  · rw [hwalk]
    refine ⟨iff_of_false Bool.false_ne_true ?_, nofun, fun after h => ?_⟩
    · rintro ⟨r, hr, hr'⟩
      have := (hmatch r).2 hr'
      rw [hstuck r hr] at this
      cases this
    · cases h
      rfl

/-- Under `/{a}/b` and `/*c`, the path `/X/b` is walked to the first route. -/
theorem walk_agrees_two : ∃ r r' t, Grown [r, r'] t ∧
    r.text = ['/', '{', 'a', '}', '/', 'b'] ∧ r'.text = ['/', '*', 'c'] ∧
    (t.walk ['/', 'x', '/', 'b'] ['/', 'X', '/', 'b'] []).1.isSome = true := by
  have hparam : Pattern.parse ['/', '{', 'a', '}', '/', 'b'] =
      .ok ⟨[[.param ['a'] .word], [.literal ['b']]]⟩ := rfl
  have hrest : Pattern.parse ['/', '*', 'c'] = .ok ⟨[[.catchAll ['c']]]⟩ := rfl
  have ht : Grown [⟨_, [], 0⟩, ⟨_, [], 1⟩] _ := .insert (.insert .empty hparam rfl) hrest rfl
  exact ⟨_, _, _, ht, rfl, rfl, (ht.walk_agrees ['/', 'X', '/', 'b'] []).1.2
    ⟨_, List.mem_cons_self, by decide, by decide⟩⟩

end Tree.Grown

end HttpRouting
