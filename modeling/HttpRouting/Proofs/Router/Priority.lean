import HttpRouting.Proofs.Pattern.Spelling
import HttpRouting.Proofs.Router.Matching
import HttpRouting.Proofs.Router.Reads

/-!
# Which route a walk ends at

A walk prefers text to wildcards, and among wildcards the one that was inserted first. The order of
the entries of a tree says so for keys (`Tree.ordered`): it needs the dates of the routes behind
wildcards, which insertions keep in order whatever text is split for them (`Tree.dated_insert`). For
patterns it is said segment by segment (`Router.Reachable.walk_priority`).
-/

namespace HttpRouting

/-! ## Dates -/

mutual

/-- Behind each wildcard stands a route that is older than all those behind the wildcards after
it. -/
def Tree.Dated : Tree → Prop
  | .mk texts wilds _ => texts.Dated ∧ wilds.Dated

def TextEdges.Dated : TextEdges → Prop
  | .nil => True
  | .cons _ child rest => child.Dated ∧ rest.Dated

def WildEdges.Dated : WildEdges → Prop
  | .nil => True
  | .cons _ _ child rest =>
    child.Dated ∧ rest.Dated ∧ ∃ e ∈ child.routes, ∀ e' ∈ rest.routes, e.number < e'.number

end

theorem Adds.mem_map {key : Key} {r e : Route} {es es' : List (Key × Route)}
    (h : Adds (key, r) es es') : e ∈ es'.map (·.2) ↔ e = r ∨ e ∈ es.map (·.2) := by
  rw [(h.perm.map (·.2)).mem_iff, List.map_cons, List.mem_cons]

namespace Tree

variable {t : Tree} {key : Key}

theorem mem_routes_insert {r e : Route} (ht : t.WF) (hk : key.Regular)
    (h : (t.insert r key).2 = none) :
    e ∈ (t.insert r key).1.routes ↔ e = r ∨ e ∈ t.routes := by
  rw [routes_eq, routes_eq]
  exact (adds_insert ht hk h).mem_map

theorem routes_single (r : Route) (key : Key) : (single r key).routes = [r] := by
  rw [routes_eq, entries_single]
  rfl

theorem dated_push (h : t.Dated) (c : Char) : (t.push c).Dated := by
  unfold push
  split
  · exact h
  · exact ⟨⟨h, trivial⟩, trivial⟩

theorem dated_single (r : Route) (key : Key) : (single r key).Dated := by
  induction key with
  | nil => exact ⟨trivial, trivial⟩
  | cons symbol key ih =>
    cases symbol with
    | char c => exact dated_push ih c
    | wild written shape =>
      refine ⟨trivial, ih, trivial, r, ?_, nofun⟩
      rw [routes_single]
      exact List.mem_singleton_self r

theorem dated_fork (left : Text) {child : Tree} (hchild : child.Dated) (r : Route) (key : Key) :
    (fork left child r key).Dated := by
  have hsingle := dated_single r key
  unfold fork
  cases hs : single r key with
  | mk texts wilds route =>
    rw [hs] at hsingle
    exact ⟨⟨hchild, hsingle.1⟩, hsingle.2⟩

end Tree

theorem WildEdges.mem_routes_insert {r e : Route} {written : Text} {shape : Shape} {es : WildEdges}
    {key : Key} (hes : es.WF) (hk : Key.Regular (.wild written shape :: key))
    (h : (es.insert r written shape key).2 = none) :
    e ∈ (es.insert r written shape key).1.routes ↔ e = r ∨ e ∈ es.routes := by
  rw [routes_eq, routes_eq]
  exact (adds_insert hes hk h).mem_map

mutual

/-- A route that is younger than all routes of a tree may go anywhere. -/
theorem Tree.dated_insert {r : Route} {t : Tree} {key : Key} (ht : t.WF) (hdated : t.Dated)
    (hk : key.Regular) (hyoung : ∀ e ∈ t.routes, e.number < r.number)
    (h : (t.insert r key).2 = none) : (t.insert r key).1.Dated := by
  cases t with
  | mk texts wilds route =>
    rw [Tree.routes, List.forall_mem_append, List.forall_mem_append] at hyoung
    obtain ⟨⟨-, htexts⟩, hwilds⟩ := hyoung
    match route, key with
    | some e, [] => cases h
    | none, [] => exact hdated
    | _, .char c :: key =>
      rw [Tree.insert_char] at h ⊢
      exact ⟨TextEdges.dated_insert ht.1 hdated.1 hk htexts h, hdated.2⟩
    | _, .wild written shape :: key =>
      rw [Tree.insert_wild] at h ⊢
      exact ⟨hdated.1, WildEdges.dated_insert ht.2 hdated.2 hk hwilds h⟩

theorem TextEdges.dated_insert {r : Route} {es : TextEdges} {c : Char} {key : Key} (hes : es.WF)
    (hdated : es.Dated) (hk : Key.Regular (.char c :: key))
    (hyoung : ∀ e ∈ es.routes, e.number < r.number)
    (h : (es.insert r (.char c :: key)).2 = none) : (es.insert r (.char c :: key)).1.Dated := by
  cases es with
  | nil =>
    have hsingle := Tree.dated_single r (.char c :: key)
    rw [TextEdges.insert]
    cases hs : Tree.single r (.char c :: key) with
    | mk texts wilds route => rw [hs] at hsingle; exact hsingle.1
  | cons fragment child rest =>
    obtain ⟨-, hchild, hrest, -⟩ := hes
    obtain ⟨hdchild, hdrest⟩ := hdated
    obtain ⟨hychild, hyrest⟩ := List.forall_mem_append.1 hyoung
    rcases hs : Tree.splitCommon fragment (.char c :: key) with ⟨_ | ⟨d, common⟩, left, key'⟩
    · rw [TextEdges.insert_apart hs] at h ⊢
      exact ⟨hdchild, TextEdges.dated_insert hrest hdrest hk hyrest h⟩
    · obtain ⟨-, hkey, -⟩ := Tree.splitCommon_cases hs
      cases left with
      | nil =>
        rw [TextEdges.insert_along hs] at h ⊢
        exact ⟨Tree.dated_insert hchild hdchild (hkey ▸ hk).append_right hychild h, hdrest⟩
      | cons l left =>
        rw [TextEdges.insert_fork hs]
        exact ⟨Tree.dated_fork _ hdchild r key', hdrest⟩

theorem WildEdges.dated_insert {r : Route} {written : Text} {shape : Shape} {es : WildEdges}
    {key : Key} (hes : es.WF) (hdated : es.Dated) (hk : Key.Regular (.wild written shape :: key))
    (hyoung : ∀ e ∈ es.routes, e.number < r.number)
    (h : (es.insert r written shape key).2 = none) :
    (es.insert r written shape key).1.Dated := by
  cases es with
  | nil =>
    refine ⟨Tree.dated_single r key, trivial, r, ?_, nofun⟩
    rw [Tree.routes_single]
    exact List.mem_singleton_self r
  | cons w s child rest =>
    obtain ⟨-, hchild, hrest, -⟩ := hes
    obtain ⟨hdchild, hdrest, e, he, holder⟩ := hdated
    obtain ⟨hychild, hyrest⟩ := List.forall_mem_append.1 hyoung
    by_cases hw : w = written
    · subst hw
      rw [WildEdges.insert_along] at h ⊢
      refine ⟨Tree.dated_insert hchild hdchild hk.cons hychild h, hdrest, e, ?_, holder⟩
      exact (Tree.mem_routes_insert hchild hk.cons h).2 (.inr he)
    · rw [WildEdges.insert_apart hw] at h ⊢
      refine ⟨hdchild, WildEdges.dated_insert hrest hdrest hk hyrest h, e, he, ?_⟩
      -- The new route is younger than the one that was older than the others behind.
      intro e' he'
      rcases (WildEdges.mem_routes_insert hrest hk h).1 he' with rfl | he'
      · exact hychild e he
      · exact holder e' he'

end

/-- Routes that are inserted one after another leave a dated tree. -/
theorem Tree.Grown.dated {routes : List Route} {t : Tree} (ht : t.Grown routes)
    (h : routes.Pairwise fun a b => a.number < b.number) : t.Dated := by
  induction ht with
  | empty => exact ⟨trivial, trivial⟩
  | @insert routes t t' r text ht hparse hinsert ih =>
    obtain ⟨hroutes, -, hyoung⟩ := List.pairwise_append.1 h
    have hnone := congrArg (·.2) hinsert
    have hdated := dated_insert ht.wf (ih hroutes) (Pattern.regular_key hparse) ?_ hnone
    · rwa [hinsert] at hdated
    · intro e he
      rw [routes_eq] at he
      obtain ⟨⟨key, e⟩, hm, rfl⟩ := List.mem_map.1 he
      exact hyoung e (ht.mem_entries.1 hm).1 r (List.mem_singleton_self r)

/-! ## The order of entries -/

/-- A route under the first key is older than all routes under the second. -/
def Older (entries : List (Key × Route)) (k k' : Key) : Prop :=
  ∃ key e, (key, e) ∈ entries ∧ k <+: key ∧
    ∀ key' e', (key', e') ∈ entries → k' <+: key' → e.number < e'.number

/-- Where one key has a wildcard and the other goes along up to there, the other goes on with a
wildcard too, the same or a younger one. -/
def Precedes (entries : List (Key × Route)) (key key' : Key) : Prop :=
  ∀ front written shape back, key = front ++ .wild written shape :: back → front <+: key' →
    ∃ written' shape' back', key' = front ++ .wild written' shape' :: back' ∧
      (written' = written ∨
        Older entries (front ++ [.wild written shape]) (front ++ [.wild written' shape']))

/-- Each entry precedes those behind it. -/
def Ordered (entries : List (Key × Route)) : Prop :=
  entries.Pairwise fun e e' => Precedes entries e.1 e'.1

variable {entries entries' all : List (Key × Route)} {key key' k k' : Key}

theorem Older.before (h : Older entries k k') (front : Key) :
    Older (front.before entries) (front ++ k) (front ++ k') := by
  obtain ⟨key, e, hm, hk, holder⟩ := h
  refine ⟨front ++ key, e, Key.mem_before.2 ⟨key, hm, rfl⟩, ?_, ?_⟩
  · exact (List.prefix_append_right_inj front).2 hk
  · intro key' e' hm' hk'
    obtain ⟨rest, hrest, rfl⟩ := Key.mem_before.1 hm'
    exact holder rest e' hrest ((List.prefix_append_right_inj front).1 hk')

namespace Precedes

theorem nil : Precedes entries [] key' := by
  intro front written shape back hkey
  cases (List.append_eq_nil_iff.1 hkey.symm).2

/-- Keys that part at their first symbol, which is a character of the first one. -/
theorem of_head_ne {c : Char} (hchar : key.head? = some (.char c)) (hne : key'.head? ≠ key.head?) :
    Precedes entries key key' := by
  rintro (_ | ⟨symbol, front⟩) written shape back rfl hfront
  · cases hchar
  · obtain ⟨rest, rfl⟩ := hfront
    exact absurd rfl hne

/-- Keys that part at their first symbols, which are wildcards. -/
theorem of_older {written written' : Text} {shape shape' : Shape} (hne : written' ≠ written)
    (h : Older entries [.wild written shape] [.wild written' shape']) (key key' : Key) :
    Precedes entries (.wild written shape :: key) (.wild written' shape' :: key') := by
  rintro (_ | ⟨symbol, front⟩) w s back hkey hfront
  · obtain ⟨hsymbol, -⟩ := List.cons.inj hkey
    cases hsymbol
    exact ⟨written', shape', key', rfl, .inr h⟩
  · obtain ⟨rest, hrest⟩ := hfront
    obtain ⟨rfl, -⟩ := List.cons.inj hkey
    cases (List.cons.inj hrest).1
    exact absurd rfl hne

/-- Entries that start otherwise make no difference. -/
theorem mono (h : Precedes entries key key') (hsub : entries ⊆ all)
    (hall : ∀ e ∈ all, e.1.head? = key'.head? → e ∈ entries) : Precedes all key key' := by
  intro front written shape back hkey hfront
  obtain ⟨written', shape', back', rfl, hsame | ⟨k, e, hm, hk, holder⟩⟩ :=
    h front written shape back hkey hfront
  · exact ⟨written', shape', back', rfl, .inl hsame⟩
  · refine ⟨written', shape', back', rfl, .inr ⟨k, e, hsub hm, hk, ?_⟩⟩
    intro k' e' hm' hk'
    refine holder k' e' (hall _ hm' ?_) hk'
    obtain ⟨rest, rfl⟩ := hk'
    cases front <;> rfl

theorem before (h : Precedes entries key key') (start : Key) :
    Precedes (start.before entries) (start ++ key) (start ++ key') := by
  intro front written shape back hkey hfront
  have hbehind : ∀ more, front = start ++ more → key = more ++ .wild written shape :: back →
      ∃ written' shape' back', start ++ key' = front ++ .wild written' shape' :: back' ∧
        (written' = written ∨ Older (start.before entries) (front ++ [.wild written shape])
          (front ++ [.wild written' shape'])) := by
    rintro more rfl hkey
    obtain ⟨written', shape', back', rfl, holder⟩ := h more written shape back hkey
      ((List.prefix_append_right_inj start).1 hfront)
    refine ⟨written', shape', back', (List.append_assoc ..).symm, holder.imp_right fun h => ?_⟩
    rw [List.append_assoc, List.append_assoc]
    exact h.before start
  rcases List.append_eq_append_iff.1 hkey with ⟨more, hmore, hkey⟩ | ⟨more, rfl, hback⟩
  · exact hbehind more hmore hkey
  · cases more with
    | nil => exact hbehind [] (by simp) hback.symm
    | cons symbol more =>
      -- The wildcard is on the way to both keys.
      obtain ⟨rfl, -⟩ := List.cons.inj hback
      exact ⟨written, shape, more ++ key', by simp, .inl rfl⟩

end Precedes

namespace Ordered

theorem before (h : Ordered entries) (start : Key) : Ordered (start.before entries) :=
  List.pairwise_map.2 (h.imp fun hprecedes => hprecedes.before start)

theorem append (h : Ordered entries) (h' : Ordered entries')
    (hapart : ∀ e ∈ entries, ∀ e' ∈ entries', e'.1.head? ≠ e.1.head?)
    (hcross : ∀ e ∈ entries, ∀ e' ∈ entries', Precedes (entries ++ entries') e.1 e'.1) :
    Ordered (entries ++ entries') := by
  refine List.pairwise_append.2 ⟨h.imp_of_mem ?_, h'.imp_of_mem ?_, hcross⟩
  · intro e e' _ he' hprecedes
    apply hprecedes.mono (List.subset_append_left ..)
    intro x hx hhead
    exact (List.mem_append.1 hx).resolve_right fun hx => hapart e' he' x hx hhead
  · intro e e' _ he' hprecedes
    apply hprecedes.mono (List.subset_append_right ..)
    intro x hx hhead
    exact (List.mem_append.1 hx).resolve_left fun hx => hapart x hx e' he' hhead.symm

/-- Entries behind text come before all that start otherwise. -/
theorem append_of_char (h : Ordered entries) (h' : Ordered entries')
    (hchar : ∀ e ∈ entries, ∃ c, e.1.head? = some (.char c))
    (hapart : ∀ e ∈ entries, ∀ e' ∈ entries', e'.1.head? ≠ e.1.head?) :
    Ordered (entries ++ entries') := by
  apply h.append h' hapart
  intro e he e' he'
  obtain ⟨c, hc⟩ := hchar e he
  exact .of_head_ne hc (hapart e he e' he')

end Ordered

theorem TextEdges.head_entries {es : TextEdges} (hes : es.WF) : ∀ e ∈ es.entries,
    ∃ f ∈ es.fragments, ∃ c, f.head? = some c ∧ e.1.head? = some (.char c) := by
  match es with
  | .nil => exact nofun
  | .cons fragment child rest =>
    obtain ⟨hfragment, -, hrest, -⟩ := hes
    rintro ⟨key, e⟩ he
    rcases List.mem_append.1 he with he | he
    · obtain ⟨key, -, rfl⟩ := Key.mem_before.1 he
      obtain ⟨c, fs, rfl⟩ := List.exists_cons_of_ne_nil hfragment
      exact ⟨_, List.mem_cons_self, c, rfl, rfl⟩
    · obtain ⟨f, hf, hhead⟩ := head_entries hrest _ he
      exact ⟨f, List.mem_cons_of_mem _ hf, hhead⟩

theorem WildEdges.head_entries (es : WildEdges) : ∀ e ∈ es.entries,
    ∃ w ∈ es.tokens, ∃ shape, e.1.head? = some (.wild w shape) := by
  match es with
  | .nil => exact nofun
  | .cons written shape child rest =>
    rintro ⟨key, e⟩ he
    rcases List.mem_append.1 he with he | he
    · obtain ⟨key, -, rfl⟩ := Key.mem_before.1 he
      exact ⟨written, List.mem_cons_self, shape, rfl⟩
    · obtain ⟨w, hw, hhead⟩ := head_entries rest _ he
      exact ⟨w, List.mem_cons_of_mem _ hw, hhead⟩

mutual

theorem Tree.ordered {t : Tree} (ht : t.WF) (hdated : t.Dated) : Ordered t.entries := by
  cases t with
  | mk texts wilds route =>
    obtain ⟨htexts, hwilds⟩ := ht
    have hedges : Ordered (texts.entries ++ wilds.entries) := by
      refine (TextEdges.ordered htexts hdated.1).append_of_char
        (WildEdges.ordered hwilds hdated.2) ?_ ?_
      · intro e he
        obtain ⟨-, -, c, -, hhead⟩ := TextEdges.head_entries htexts e he
        exact ⟨c, hhead⟩
      · intro e he e' he' hsame
        obtain ⟨-, -, c, -, hhead⟩ := TextEdges.head_entries htexts e he
        obtain ⟨w, -, shape, hhead'⟩ := WildEdges.head_entries wilds e' he'
        cases hhead'.symm.trans (hsame.trans hhead)
    rw [Tree.entries, List.append_assoc]
    cases route with
    | none => exact hedges
    | some r =>
      have hroute : Ordered [([], r)] := List.pairwise_singleton ..
      refine hroute.append hedges ?_ ?_
      · intro e he e' he'
        rw [List.mem_singleton.1 he]
        rcases List.mem_append.1 he' with he' | he'
        · obtain ⟨-, -, c, -, hhead⟩ := TextEdges.head_entries htexts e' he'
          rw [hhead]
          exact nofun
        · obtain ⟨w, -, shape, hhead⟩ := WildEdges.head_entries wilds e' he'
          rw [hhead]
          exact nofun
      · intro e he e' he'
        rw [List.mem_singleton.1 he]
        exact .nil

theorem TextEdges.ordered {es : TextEdges} (hes : es.WF) (hdated : es.Dated) :
    Ordered es.entries := by
  cases es with
  | nil => exact .nil
  | cons fragment child rest =>
    obtain ⟨hfragment, hchild, hrest, hheads⟩ := hes
    obtain ⟨c, fs, rfl⟩ := List.exists_cons_of_ne_nil hfragment
    refine ((Tree.ordered hchild hdated.1).before _).append_of_char
      (TextEdges.ordered hrest hdated.2) ?_ ?_
    · rintro ⟨key, e⟩ he
      obtain ⟨key, -, rfl⟩ := Key.mem_before.1 he
      exact ⟨c, rfl⟩
    · rintro ⟨key, e⟩ he e' he' hsame
      obtain ⟨key, -, rfl⟩ := Key.mem_before.1 he
      obtain ⟨f, hf, d, hd, hhead⟩ := TextEdges.head_entries hrest e' he'
      cases hhead.symm.trans hsame
      exact hheads f hf hd

theorem WildEdges.ordered {es : WildEdges} (hes : es.WF) (hdated : es.Dated) :
    Ordered es.entries := by
  cases es with
  | nil => exact .nil
  | cons written shape child rest =>
    obtain ⟨-, hchild, hrest, htokens⟩ := hes
    obtain ⟨hdchild, hdrest, e, he, holder⟩ := hdated
    refine ((Tree.ordered hchild hdchild).before _).append (WildEdges.ordered hrest hdrest) ?_ ?_
    · rintro ⟨key, r⟩ hm e' he' hsame
      obtain ⟨key, -, rfl⟩ := Key.mem_before.1 hm
      obtain ⟨w, hw, s, hhead⟩ := WildEdges.head_entries rest e' he'
      cases hhead.symm.trans hsame
      exact htokens hw
    · rintro ⟨key, r⟩ hm ⟨key', r'⟩ hm'
      obtain ⟨key, -, rfl⟩ := Key.mem_before.1 hm
      obtain ⟨w, hw, s, hhead⟩ := WildEdges.head_entries rest _ hm'
      obtain ⟨key', rfl⟩ := List.head?_eq_some_iff.1 hhead
      have hne : w ≠ written := by
        rintro rfl
        exact htokens hw
      refine .of_older hne ?_ key key'
      -- The older route is behind this wildcard, and all of the other one is behind later ones.
      rw [Tree.routes_eq] at he
      obtain ⟨⟨k, e⟩, hk, rfl⟩ := List.mem_map.1 he
      refine ⟨_, e, List.mem_append_left _ (Key.mem_before.2 ⟨k, hk, rfl⟩),
        List.prefix_append _ _, ?_⟩
      rintro k' e' hmem ⟨back, rfl⟩
      rcases List.mem_append.1 hmem with hmem | hmem
      · obtain ⟨_, -, heq⟩ := Key.mem_before.1 hmem
        cases (List.cons.inj heq).1
        exact absurd rfl hne
      · refine holder e' ?_
        rw [WildEdges.routes_eq]
        exact List.mem_map_of_mem hmem

end

/-- Of the routes whose keys take the path, the one that a walk ends at precedes the others. -/
theorem Ordered.precedes_of_firstTaken (h : Ordered entries) {path : Text} {r r' : Route}
    {captured : List Text} (hfirst : firstTaken entries path = some (r, captured))
    (hm : (key', r') ∈ entries) (htakes : (key'.capture? path).isSome = true) (hne : r' ≠ r) :
    ∃ key, (key, r) ∈ entries ∧ Precedes entries key key' := by
  obtain ⟨front, ⟨key, e⟩, back, hsplit, htaken, hfront⟩ := List.findSome?_eq_some_iff.1 hfirst
  obtain ⟨captured', -, heq⟩ := Option.map_eq_some_iff.1 htaken
  cases heq
  refine ⟨key, hsplit ▸ List.mem_append_right _ List.mem_cons_self, ?_⟩
  have hpairwise : (front ++ (key, e) :: back).Pairwise
      fun e e' => Precedes entries e.1 e'.1 := hsplit ▸ h
  rw [hsplit] at hm
  rcases List.mem_append.1 hm with hm | hm
  · have hnone := hfront _ hm
    rw [Option.map_eq_none_iff] at hnone
    rw [hnone] at htakes
    cases htakes
  · rcases List.mem_cons.1 hm with heq | hm
    · cases heq
      exact absurd rfl hne
    · exact List.rel_of_pairwise_cons (List.pairwise_append.1 hpairwise).2.1 hm

/-! ## The order of patterns -/

/-- The first route that is spelled like a pattern up to and with segment `i`, letter case aside. -/
def firstLike (routes : List Route) (p : Pattern) (i : Nat) : Option Route :=
  routes.find? fun e => e.pattern.spelling.take (i + 1) = p.spelling.take (i + 1)

theorem firstLike_eq_some {routes : List Route} {p : Pattern} {i : Nat} {e : Route}
    (h : firstLike routes p i = some e) :
    e ∈ routes ∧ e.pattern.spelling.take (i + 1) = p.spelling.take (i + 1) := by
  unfold firstLike at h
  have hlike := List.find?_some h
  exact ⟨List.mem_of_find?_eq_some h, of_decide_eq_true hlike⟩

theorem exists_firstLike {routes : List Route}
    (h : routes.Pairwise fun a b => a.number < b.number) {p : Pattern} {i : Nat} {e : Route}
    (he : e ∈ routes) (hlike : e.pattern.spelling.take (i + 1) = p.spelling.take (i + 1)) :
    ∃ first, firstLike routes p i = some first ∧ first.number ≤ e.number := by
  unfold firstLike
  cases hfirst : routes.find? fun e =>
      e.pattern.spelling.take (i + 1) = p.spelling.take (i + 1) with
  | none => exact absurd (decide_eq_true hlike) (List.find?_eq_none.1 hfirst e he)
  | some first =>
    refine ⟨first, rfl, ?_⟩
    obtain ⟨-, front, back, rfl, hfront⟩ := List.find?_eq_some_iff_append.1 hfirst
    rcases List.mem_append.1 he with he | he
    · have hunlike := hfront e he
      rw [decide_eq_true hlike] at hunlike
      cases hunlike
    · rcases List.mem_cons.1 he with rfl | he
      · exact Nat.le_refl _
      · have hbehind := List.rel_of_pairwise_cons (List.pairwise_append.1 h).2.1 he
        exact Nat.le_of_lt hbehind

namespace MethodRoutes.Valid

variable {t : MethodRoutes} {path : Text} {r r' : Route} {values : List Text} {i : Nat}
  {s s' : Segment}

/-- If a key precedes another one and has a wildcard at the segment at which the patterns part, then
the other one has a younger wildcard there. -/
theorem younger_of_precedes (ht : t.Valid) (hr : r ∈ t.routes) (hr' : r' ∈ t.routes)
    (hprecedes : Precedes t.tree.entries r.pattern.key r'.pattern.key)
    (hpart : r.pattern.PartAt r'.pattern i s s') (hlit : ¬ Segment.isLiteral s = true) :
    ¬ Segment.isLiteral s' = true ∧ Older t.tree.entries (r.pattern.keyUpTo (i + 1))
      (r'.pattern.keyUpTo (i + 1)) := by
  have hfront : r'.pattern.keyUpTo i = r.pattern.keyUpTo i :=
    Pattern.keyUpTo_congr (ht.grown.parse_text hr') (ht.grown.parse_text hr) hpart.before.symm
  have hkey := Pattern.key_eq_of_getElem? hpart.left
  rw [Segment.key_of_not_isLiteral hlit] at hkey
  have hkey' := Pattern.key_eq_of_getElem? hpart.right
  rw [hfront] at hkey'
  obtain ⟨written', shape', back', hwild, hyounger⟩ :=
    hprecedes _ _ _ _ hkey (hkey' ▸ List.prefix_append _ _)
  rw [← hfront] at hwild
  obtain ⟨hlit', rfl, rfl⟩ := Pattern.wild_of_key hpart.right hwild
  rw [Pattern.keyUpTo_succ_of_not_isLiteral hpart.left hlit,
    Pattern.keyUpTo_succ_of_not_isLiteral hpart.right hlit', hfront]
  exact ⟨hlit', hyounger.resolve_left hpart.apart.symm⟩

/-- What is older by its key, up to a wildcard, is older by its spelling: the first route of the one
spelling was there before the first of the other. -/
theorem firstLike_of_older (ht : t.Valid) (hr : r ∈ t.routes) (hr' : r' ∈ t.routes)
    (hpart : r.pattern.PartAt r'.pattern i s s') (hlit : ¬ Segment.isLiteral s = true)
    (hlit' : ¬ Segment.isLiteral s' = true)
    (holder : Older t.tree.entries (r.pattern.keyUpTo (i + 1)) (r'.pattern.keyUpTo (i + 1))) :
    ∃ e e', firstLike t.routes r.pattern i = some e ∧
      firstLike t.routes r'.pattern i = some e' ∧ e.number < e'.number := by
  obtain ⟨key, old, hm, hprefix, hyounger⟩ := holder
  obtain ⟨hold, rfl⟩ := ht.grown.mem_entries.1 hm
  have hlike := (Pattern.spelling_take_iff (ht.grown.parse_text hr) (ht.grown.parse_text hold)
    hpart.left hlit).1 hprefix
  obtain ⟨e, he, hle⟩ := exists_firstLike ht.ordered hold hlike
  obtain ⟨e', he', -⟩ := exists_firstLike (i := i) ht.ordered hr' rfl
  obtain ⟨hmem', hlike'⟩ := firstLike_eq_some he'
  have hprefix' := (Pattern.spelling_take_iff (ht.grown.parse_text hr')
    (ht.grown.parse_text hmem') hpart.right hlit').2 hlike'
  have hnumber := hyounger _ e' (ht.grown.mem_entries.2 ⟨hmem', rfl⟩) hprefix'
  exact ⟨e, e', he, he', Nat.lt_of_le_of_lt hle hnumber⟩

theorem lookup_eq (ht : t.Valid) (path : Text) :
    t.tree.lookup path = firstTaken t.tree.entries path := by
  rw [Tree.lookup, Tree.walk_eq ht.grown.wf]
  cases firstTaken t.tree.entries path <;> rfl

/-- The route that a walk ends at and another one that the path leads to, segment by segment. -/
theorem lookup_priority (ht : t.Valid) (hlookup : t.tree.lookup path = some (r, values))
    (hr' : r' ∈ t.routes) (hwalks' : r'.Walks path) (hne : r' ≠ r)
    (htext : Text.lower r.text ≠ Text.lower r'.text) :
    ∃ i s s', r.pattern.PartAt r'.pattern i s s' ∧
      (Segment.isLiteral s = true ∧ Segment.isParam s' = true ∨
        Segment.isParam s = true ∧ Segment.isParam s' = true ∧
          ∃ e e', firstLike t.routes r.pattern i = some e ∧
            firstLike t.routes r'.pattern i = some e' ∧ e.number < e'.number) := by
  rw [ht.lookup_eq] at hlookup
  have hordered := Tree.ordered ht.grown.wf (ht.grown.dated ht.ordered)
  obtain ⟨key, hm, hprecedes⟩ := hordered.precedes_of_firstTaken hlookup
    (ht.grown.mem_entries.2 ⟨hr', rfl⟩) (Route.walks_iff.1 hwalks') hne
  obtain ⟨hr, rfl⟩ := ht.grown.mem_entries.1 hm
  obtain ⟨_, htaken, hcapture⟩ := firstTaken_eq_some hlookup
  obtain ⟨-, rfl⟩ := ht.grown.mem_entries.1 htaken
  have hwalks : r.Walks path := Route.walks_iff.2 (Option.isSome_of_eq_some hcapture)
  have hformed := Pattern.formed_parse (ht.grown.parse_text hr)
  have hformed' := Pattern.formed_parse (ht.grown.parse_text hr')
  have hspelling : r.pattern.spelling ≠ r'.pattern.spelling := by
    intro h
    rw [Route.text, Route.text, Pattern.lower_text, Pattern.lower_text, h] at htext
    exact htext rfl
  obtain ⟨i, s, s', v, hpart, hs, hs'⟩ := Pattern.exists_partAt_of_isMatch hformed hformed'
    hwalks.1 hwalks'.1 hwalks.2 hwalks'.2 hspelling
  refine ⟨i, s, s', hpart, ?_⟩
  have hparam := Pattern.isLiteral_or_isParam hwalks.1 hpart.left
  have hparam' := Pattern.isLiteral_or_isParam hwalks'.1 hpart.right
  by_cases hlit : Segment.isLiteral s = true
  · refine .inl ⟨hlit, hparam'.resolve_left fun hlit' => hpart.apart ?_⟩
    rw [← (Segment.spells_of_isLiteral hlit).1 hs, (Segment.spells_of_isLiteral hlit').1 hs']
  · obtain ⟨hlit', holder⟩ := ht.younger_of_precedes hr hr' hprecedes hpart hlit
    exact .inr ⟨hparam.resolve_left hlit, hparam'.resolve_left hlit',
      ht.firstLike_of_older hr hr' hpart hlit hlit' holder⟩

end MethodRoutes.Valid

namespace Router

variable {r : Router} {m : Method} {path : Text} {unescape : Bool} {e : Route} {params : Params}

theorem lookup_of_walked (h : r.resolve m path unescape = .walked e params) :
    ∃ values, (r.routesOf m).tree.lookup (Path.squeeze path) = some (e, values) := by
  unfold resolve at h
  unfold routesOf
  cases hm : r.routesOf? m with
  | none =>
    rw [hm] at h
    cases h
  | some t =>
    rw [hm] at h
    rw [Option.getD_some]
    simp only [MethodRoutes.resolve] at h
    split at h
    · next found values hlookup =>
      cases h
      exact ⟨values, hlookup⟩
    · split at h <;> split at h <;> cases h

/-- The route that a walk ends at, and any other one that a walk could end at for the path: at the
first segment that they spell differently, letter case aside, the former has a literal and the other
a parameter. Or both have parameters, and then the first route of the method that is spelled like
the former up to there, whatever route that is, was registered before the first that is spelled like
the other. -/
theorem Reachable.walk_priority (hr : r.Reachable)
    (hwalked : r.resolve m path unescape = .walked e params) {e' : Route}
    (he' : e' ∈ (r.routesOf m).routes) (hwalks : e'.Walks (Path.squeeze path)) (hne : e' ≠ e) :
    ∃ i s s', e.pattern.PartAt e'.pattern i s s' ∧
      (Segment.isLiteral s = true ∧ Segment.isParam s' = true ∨
        Segment.isParam s = true ∧ Segment.isParam s' = true ∧
          ∃ first first', firstLike (r.routesOf m).routes e.pattern i = some first ∧
            firstLike (r.routesOf m).routes e'.pattern i = some first' ∧
            first.number < first'.number) := by
  obtain ⟨values, hlookup⟩ := lookup_of_walked hwalked
  apply (hr.valid.routesOf m).lookup_priority hlookup he' hwalks hne
  intro htext
  have hfound : (r.resolve m path unescape).found? = some (e, params) := by
    rw [hwalked]
    rfl
  have he := hr.valid.mem_of_found? m path unescape hfound
  exact hne (hr.eq_of_text he he' htext).symm

/-- For `/x` the route `/{b}` comes before the older `/{a}`, since `/{b}/z` was there before
both. -/
theorem Reachable.walk_priority_prefix : ∃ (r : Router) (e e' : Route) (params : Params),
    Reachable r ∧ r.resolve .get ['/', 'x'] false = .walked e params ∧
    e.text = ['/', '{', 'b', '}'] ∧ e'.text = ['/', '{', 'a', '}'] ∧ e'.number < e.number ∧
    ∃ first first', firstLike (r.routesOf .get).routes e.pattern 0 = some first ∧
      firstLike (r.routesOf .get).routes e'.pattern 0 = some first' ∧
      first.number < first'.number := by
  have hr : Reachable _ := .register (.register (.register .empty
    .get ['/', '{', 'b', '}', '/', 'z'] []) .get ['/', '{', 'a', '}'] [])
    .get ['/', '{', 'b', '}'] []
  obtain ⟨_ | i, s, s', hpart, hparts⟩ := @walk_priority _ .get ['/', 'x'] false
    ⟨⟨[[.param ['b'] .word]]⟩, [], 2⟩ [⟨['b'], ['x']⟩] hr rfl ⟨⟨[[.param ['a'] .word]]⟩, [], 1⟩
    (List.mem_cons_of_mem _ List.mem_cons_self) (by decide) nofun
  · cases hpart.left
    rcases hparts with ⟨hlit, -⟩ | ⟨-, -, hfirst⟩
    · cases hlit
    · exact ⟨_, _, _, _, hr, rfl, rfl, rfl, Nat.lt_succ_self 1, hfirst⟩
  · cases hpart.left

end Router

end HttpRouting
