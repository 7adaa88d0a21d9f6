import HttpRouting.Proofs.Router.Keys

/-!
# Insertion into a tree

The view of a tree are its entries, each route with the key that leads to it. In a well-formed tree
text edges part at their first character, wildcards at their text, and a wildcard is treated as its
text tells. An insertion that succeeds adds one entry, keeps the order of the others and keeps the
tree well-formed (`Tree.adds_insert`); one that fails leaves the tree as it was and names the route
with the same key (`Tree.insert_eq_some`).
-/

namespace HttpRouting

/-- Entries with a key in front of each of their own. -/
def Key.before (key : Key) (entries : List (Key × Route)) : List (Key × Route) :=
  entries.map fun e => (key ++ e.1, e.2)

mutual

/-- Every route of a tree with its key, in the order of `Tree.routes`. -/
def Tree.entries : Tree → List (Key × Route)
  | .mk texts wilds route => route.toList.map ([], ·) ++ texts.entries ++ wilds.entries

def TextEdges.entries : TextEdges → List (Key × Route)
  | .nil => []
  | .cons fragment child rest => (Key.ofText fragment).before child.entries ++ rest.entries

def WildEdges.entries : WildEdges → List (Key × Route)
  | .nil => []
  | .cons written shape child rest => Key.before [.wild written shape] child.entries ++ rest.entries

end

/-- The texts of text edges. -/
def TextEdges.fragments : TextEdges → List Text
  | .nil => []
  | .cons fragment _ rest => fragment :: rest.fragments

/-- The texts of wildcards. -/
def WildEdges.tokens : WildEdges → List Text
  | .nil => []
  | .cons written _ _ rest => written :: rest.tokens

mutual

/-- No two edges start alike, and each wildcard is treated as its text tells. -/
def Tree.WF : Tree → Prop
  | .mk texts wilds _ => texts.WF ∧ wilds.WF

def TextEdges.WF : TextEdges → Prop
  | .nil => True
  | .cons fragment child rest =>
    fragment ≠ [] ∧ child.WF ∧ rest.WF ∧ ∀ f ∈ rest.fragments, f.head? ≠ fragment.head?

def WildEdges.WF : WildEdges → Prop
  | .nil => True
  | .cons written shape child rest =>
    shape = .ofWritten written ∧ child.WF ∧ rest.WF ∧ written ∉ rest.tokens

end

/-! ## Entries -/

namespace Key

theorem mem_before {key k : Key} {r : Route} {entries : List (Key × Route)} :
    (k, r) ∈ key.before entries ↔ ∃ k', (k', r) ∈ entries ∧ k = key ++ k' := by
  simp only [before, List.mem_map, Prod.exists, Prod.mk.injEq]
  constructor
  · rintro ⟨k', r', hm, rfl, rfl⟩
    exact ⟨k', hm, rfl⟩
  · rintro ⟨k', hm, rfl⟩
    exact ⟨k', r, hm, rfl, rfl⟩

theorem before_append (key key' : Key) (entries : List (Key × Route)) :
    (key ++ key').before entries = key.before (key'.before entries) := by
  simp [before]

theorem routes_before (key : Key) (entries : List (Key × Route)) :
    (key.before entries).map (·.2) = entries.map (·.2) := by
  simp [before]

end Key

/-- One more entry somewhere between the others. -/
def Adds (e : Key × Route) (es es' : List (Key × Route)) : Prop :=
  ∃ front back, es = front ++ back ∧ es' = front ++ e :: back

namespace Adds

variable {e : Key × Route} {es es' : List (Key × Route)}

theorem append_left (h : Adds e es es') (more : List (Key × Route)) :
    Adds e (more ++ es) (more ++ es') := by
  obtain ⟨front, back, rfl, rfl⟩ := h
  exact ⟨more ++ front, back, (List.append_assoc ..).symm, (List.append_assoc ..).symm⟩

theorem append_right (h : Adds e es es') (more : List (Key × Route)) :
    Adds e (es ++ more) (es' ++ more) := by
  obtain ⟨front, back, rfl, rfl⟩ := h
  exact ⟨front, back ++ more, List.append_assoc .., List.append_assoc ..⟩

theorem before {k : Key} {r : Route} (h : Adds (k, r) es es') (key : Key) :
    Adds (key ++ k, r) (key.before es) (key.before es') := by
  obtain ⟨front, back, rfl, rfl⟩ := h
  exact ⟨key.before front, key.before back, List.map_append, List.map_append⟩

theorem perm (h : Adds e es es') : es'.Perm (e :: es) := by
  obtain ⟨front, back, rfl, rfl⟩ := h
  exact List.perm_middle

end Adds

mutual

theorem Tree.routes_eq (t : Tree) : t.routes = t.entries.map (·.2) := by
  cases t with
  | mk texts wilds route =>
    rw [Tree.routes, Tree.entries, TextEdges.routes_eq texts, WildEdges.routes_eq wilds,
      List.map_append, List.map_append, List.map_map]
    congr 2
    exact (List.map_id _).symm

theorem TextEdges.routes_eq (e : TextEdges) : e.routes = e.entries.map (·.2) := by
  cases e with
  | nil => rfl
  | cons fragment child rest =>
    rw [TextEdges.routes, TextEdges.entries, Tree.routes_eq child, TextEdges.routes_eq rest,
      List.map_append, Key.routes_before]

theorem WildEdges.routes_eq (e : WildEdges) : e.routes = e.entries.map (·.2) := by
  cases e with
  | nil => rfl
  | cons written shape child rest =>
    rw [WildEdges.routes, WildEdges.entries, Tree.routes_eq child, WildEdges.routes_eq rest,
      List.map_append, Key.routes_before]

end

/-! ## Trees of one route -/

namespace Tree

theorem entries_push (c : Char) (t : Tree) :
    (t.push c).entries = Key.before [.char c] t.entries := by
  unfold push
  split
  · next fragment child =>
    simp only [entries, TextEdges.entries, WildEdges.entries, Option.toList_none, List.map_nil,
      List.nil_append, List.append_nil]
    exact Key.before_append [.char c] (Key.ofText fragment) child.entries
  · simp [entries, TextEdges.entries, WildEdges.entries]

theorem fragments_push (c : Char) (t : Tree) :
    ∀ f ∈ (t.push c).texts.fragments, f.head? = some c := by
  unfold push
  split <;> simp [texts, TextEdges.fragments]

theorem wf_push {t : Tree} (h : t.WF) (c : Char) : (t.push c).WF := by
  unfold push
  split
  · obtain ⟨⟨-, hchild, -⟩, hwilds⟩ := h
    exact ⟨⟨List.cons_ne_nil _ _, hchild, trivial, nofun⟩, trivial⟩
  · exact ⟨⟨List.cons_ne_nil _ _, h, trivial, nofun⟩, trivial⟩

theorem entries_single (r : Route) (key : Key) : (single r key).entries = [(key, r)] := by
  induction key with
  | nil => rfl
  | cons symbol key ih =>
    cases symbol with
    | char c => rw [single, entries_push, ih]; rfl
    | wild written shape =>
      simp [single, entries, TextEdges.entries, WildEdges.entries, ih, Key.before]

theorem wf_single (r : Route) {key : Key} (hk : key.Regular) : (single r key).WF := by
  induction key with
  | nil => exact ⟨trivial, trivial⟩
  | cons symbol key ih =>
    cases symbol with
    | char c => exact wf_push (ih hk.cons) c
    | wild written shape =>
      exact ⟨trivial, hk written shape List.mem_cons_self, ih hk.cons, trivial, List.not_mem_nil⟩

/-- A text edge of a single route starts as the key does. -/
theorem fragments_single (r : Route) (key : Key) :
    ∀ f ∈ (single r key).texts.fragments, ∃ c, f.head? = some c ∧ key.head? = some (.char c) := by
  intro f hf
  cases key with
  | nil => cases hf
  | cons symbol key =>
    cases symbol with
    | char c => exact ⟨c, fragments_push c _ f hf, rfl⟩
    | wild written shape => cases hf

theorem entries_texts_single (r : Route) (c : Char) (key : Key) :
    (single r (.char c :: key)).texts.entries = [(.char c :: key, r)] := by
  have h := entries_single r (.char c :: key)
  rw [single] at h ⊢
  unfold push at h ⊢
  split at h <;> simpa [entries, texts, WildEdges.entries] using h

/-! ## Where keys part -/

/-- The two remainders do not start alike. -/
def Parted (left : Text) (key : Key) : Prop := ∀ c, left.head? = some c → key.head? ≠ some (.char c)

theorem splitCommon_spec (fragment : Text) (key : Key) :
    fragment = (splitCommon fragment key).1 ++ (splitCommon fragment key).2.1 ∧
      key = Key.ofText (splitCommon fragment key).1 ++ (splitCommon fragment key).2.2 ∧
      Parted (splitCommon fragment key).2.1 (splitCommon fragment key).2.2 := by
  induction fragment generalizing key with
  | nil => cases key <;> exact ⟨rfl, rfl, nofun⟩
  | cons f fs ih =>
    match key with
    | [] => exact ⟨rfl, rfl, fun c _ => nofun⟩
    | .wild written shape :: key => exact ⟨rfl, rfl, fun c _ => nofun⟩
    | .char c :: key =>
      by_cases h : f = c
      · obtain ⟨hfs, hkey, hparted⟩ := ih key
        simp only [splitCommon, if_pos h]
        exact ⟨congrArg (f :: ·) hfs, by rw [Key.ofText_cons, List.cons_append, ← hkey, h], hparted⟩
      · simp only [splitCommon, if_neg h]
        refine ⟨rfl, rfl, fun d hd hc => h ?_⟩
        simp only [List.head?_cons, Option.some.injEq, Symbol.char.injEq] at hd hc
        rw [hd, hc]

theorem splitCommon_cases {fragment : Text} {key : Key} {common left : Text} {rest : Key}
    (h : splitCommon fragment key = (common, left, rest)) :
    fragment = common ++ left ∧ key = Key.ofText common ++ rest ∧ Parted left rest := by
  have := splitCommon_spec fragment key
  rwa [h] at this

theorem adds_fork (left : Text) (child : Tree) (r : Route) (key : Key) :
    Adds (key, r) ((Key.ofText left).before child.entries) (fork left child r key).entries := by
  have hsingle := entries_single r key
  unfold fork
  cases hs : single r key with
  | mk texts wilds route =>
    rw [hs, entries, List.append_assoc] at hsingle
    rw [entries, TextEdges.entries]
    rcases List.append_eq_singleton_iff.1 hsingle with ⟨hroute, hedges⟩ | ⟨hroute, hedges⟩
    · refine ⟨(Key.ofText left).before child.entries, [], (List.append_nil _).symm, ?_⟩
      rw [hroute, List.nil_append, List.append_assoc, hedges]
    · obtain ⟨htexts, hwilds⟩ := List.append_eq_nil_iff.1 hedges
      refine ⟨[], (Key.ofText left).before child.entries, rfl, ?_⟩
      rw [hroute, htexts, hwilds, List.append_nil, List.append_nil]
      rfl

theorem wf_fork {left : Text} {child : Tree} {key : Key} (r : Route) (hleft : left ≠ [])
    (hchild : child.WF) (hk : key.Regular) (hparted : Parted left key) :
    (fork left child r key).WF := by
  have hfragments := fragments_single r key
  have hwf := wf_single r hk
  unfold fork
  cases hs : single r key with
  | mk texts wilds route =>
    rw [hs] at hfragments hwf
    refine ⟨⟨hleft, hchild, hwf.1, fun f hf => ?_⟩, hwf.2⟩
    obtain ⟨c, hc, hkey⟩ := hfragments f hf
    rw [hc]
    exact fun hl => hparted c hl.symm hkey

end Tree

/-! ## One step of an insertion -/

theorem Tree.insert_char (r : Route) (texts : TextEdges) (wilds : WildEdges) (route : Option Route)
    (c : Char) (key : Key) :
    (Tree.mk texts wilds route).insert r (.char c :: key) =
      (.mk (texts.insert r (.char c :: key)).1 wilds route,
        (texts.insert r (.char c :: key)).2) := by
  cases route <;> rfl

theorem Tree.insert_wild (r : Route) (texts : TextEdges) (wilds : WildEdges) (route : Option Route)
    (written : Text) (shape : Shape) (key : Key) :
    (Tree.mk texts wilds route).insert r (.wild written shape :: key) =
      (.mk texts (wilds.insert r written shape key).1 route,
        (wilds.insert r written shape key).2) := by
  cases route <;> rfl

namespace TextEdges

variable {r : Route} {fragment : Text} {child : Tree} {rest : TextEdges} {key key' : Key}
  {c : Char} {common left : Text}

theorem insert_apart (h : Tree.splitCommon fragment key = ([], left, key')) :
    (cons fragment child rest).insert r key =
      (.cons fragment child (rest.insert r key).1, (rest.insert r key).2) := by
  simp only [insert, h]

theorem insert_along (h : Tree.splitCommon fragment key = (c :: common, [], key')) :
    (cons fragment child rest).insert r key =
      (.cons fragment (child.insert r key').1 rest, (child.insert r key').2) := by
  simp only [insert, h]

theorem insert_fork {l : Char}
    (h : Tree.splitCommon fragment key = (c :: common, l :: left, key')) :
    (cons fragment child rest).insert r key =
      (.cons (c :: common) (.fork (l :: left) child r key') rest, none) := by
  simp only [insert, h]

end TextEdges

theorem WildEdges.insert_along (r : Route) (w : Text) (shape s : Shape) (child : Tree)
    (rest : WildEdges) (key : Key) :
    (cons w s child rest).insert r w shape key =
      (.cons w s (child.insert r key).1 rest, (child.insert r key).2) := by
  rw [insert, if_pos rfl]

theorem WildEdges.insert_apart {w written : Text} (h : ¬ w = written) (r : Route) (shape s : Shape)
    (child : Tree) (rest : WildEdges) (key : Key) :
    (cons w s child rest).insert r written shape key =
      (.cons w s child (rest.insert r written shape key).1,
        (rest.insert r written shape key).2) := by
  rw [insert, if_neg h]

/-! ## Refused insertions -/

mutual

theorem Tree.insert_eq_some {r other : Route} {t : Tree} {key : Key} (ht : t.WF)
    (hk : key.Regular) (h : (t.insert r key).2 = some other) :
    (t.insert r key).1 = t ∧ (key, other) ∈ t.entries := by
  cases t with
  | mk texts wilds route =>
    match route, key with
    | some e, [] =>
      cases h
      exact ⟨rfl, List.mem_append_left _ (List.mem_append_left _ (List.mem_singleton_self _))⟩
    | none, [] => cases h
    | _, .char c :: key =>
      rw [Tree.insert_char] at h ⊢
      obtain ⟨htexts, hm⟩ := TextEdges.insert_eq_some ht.1 hk h
      exact ⟨by rw [htexts], List.mem_append_left _ (List.mem_append_right _ hm)⟩
    | _, .wild written shape :: key =>
      rw [Tree.insert_wild] at h ⊢
      obtain ⟨hwilds, hm⟩ := WildEdges.insert_eq_some ht.2 hk h
      exact ⟨by rw [hwilds], List.mem_append_right _ hm⟩

theorem TextEdges.insert_eq_some {r other : Route} {e : TextEdges} {key : Key} (he : e.WF)
    (hk : key.Regular) (h : (e.insert r key).2 = some other) :
    (e.insert r key).1 = e ∧ (key, other) ∈ e.entries := by
  cases e with
  | nil => cases h
  | cons fragment child rest =>
    obtain ⟨-, hchild, hrest, -⟩ := he
    rcases hs : Tree.splitCommon fragment key with ⟨_ | ⟨c, common⟩, left, key'⟩
    · rw [TextEdges.insert_apart hs] at h ⊢
      obtain ⟨hrest, hm⟩ := TextEdges.insert_eq_some hrest hk h
      exact ⟨by rw [hrest], List.mem_append_right _ hm⟩
    · obtain ⟨hfragment, hkey, -⟩ := Tree.splitCommon_cases hs
      cases left with
      | nil =>
        rw [TextEdges.insert_along hs] at h ⊢
        rw [List.append_nil] at hfragment
        obtain ⟨hchild, hm⟩ := Tree.insert_eq_some hchild (hkey ▸ hk).append_right h
        refine ⟨by rw [hchild], List.mem_append_left _ (Key.mem_before.2 ⟨key', hm, ?_⟩)⟩
        rw [hfragment, hkey]
      | cons l left => rw [TextEdges.insert_fork hs] at h; cases h

theorem WildEdges.insert_eq_some {r other : Route} {written : Text} {shape : Shape}
    {e : WildEdges} {key : Key} (he : e.WF) (hk : Key.Regular (.wild written shape :: key))
    (h : (e.insert r written shape key).2 = some other) :
    (e.insert r written shape key).1 = e ∧ (.wild written shape :: key, other) ∈ e.entries := by
  cases e with
  | nil => cases h
  | cons w s child rest =>
    obtain ⟨hs, hchild, hrest, -⟩ := he
    by_cases hw : w = written
    · subst hw
      rw [WildEdges.insert_along] at h ⊢
      obtain ⟨hchild, hm⟩ := Tree.insert_eq_some hchild hk.cons h
      refine ⟨by rw [hchild], List.mem_append_left _ (Key.mem_before.2 ⟨key, hm, ?_⟩)⟩
      rw [hs, hk w shape List.mem_cons_self]
      rfl
    · rw [WildEdges.insert_apart hw] at h ⊢
      obtain ⟨hrest, hm⟩ := WildEdges.insert_eq_some hrest hk h
      exact ⟨by rw [hrest], List.mem_append_right _ hm⟩

end

/-! ## Successful insertions -/

/-- An insertion adds no text that starts unlike the key. -/
theorem TextEdges.fragments_insert (r : Route) (e : TextEdges) (c : Char) (key : Key) :
    ∀ f ∈ (e.insert r (.char c :: key)).1.fragments,
      f.head? = some c ∨ ∃ g ∈ e.fragments, f.head? = g.head? := by
  intro f hf
  match e with
  | .nil =>
    obtain ⟨d, hd, hkey⟩ := Tree.fragments_single r _ f hf
    cases hkey
    exact .inl hd
  | .cons fragment child rest =>
    rcases hs : Tree.splitCommon fragment (.char c :: key) with ⟨_ | ⟨d, common⟩, left, key'⟩
    · rw [TextEdges.insert_apart hs] at hf
      simp only [TextEdges.fragments, List.mem_cons] at hf ⊢
      rcases hf with rfl | hf
      · exact .inr ⟨_, .inl rfl, rfl⟩
      · rcases TextEdges.fragments_insert r rest c key f hf with h | ⟨g, hg, h⟩
        · exact .inl h
        · exact .inr ⟨g, .inr hg, h⟩
    · obtain ⟨hfragment, -, -⟩ := Tree.splitCommon_cases hs
      have hsame : ∀ (child' : Tree) (f' : Text), f'.head? = fragment.head? →
          f ∈ (TextEdges.cons f' child' rest).fragments →
          f.head? = some c ∨ ∃ g ∈ (TextEdges.cons fragment child rest).fragments,
            f.head? = g.head? := by
        intro child' f' hhead hf
        rcases List.mem_cons.1 hf with rfl | hf
        · exact .inr ⟨fragment, List.mem_cons_self, hhead⟩
        · exact .inr ⟨f, List.mem_cons_of_mem _ hf, rfl⟩
      cases left with
      | nil =>
        rw [TextEdges.insert_along hs] at hf
        exact hsame _ fragment rfl hf
      | cons l left =>
        rw [TextEdges.insert_fork hs] at hf
        exact hsame _ (d :: common) (by rw [hfragment]; rfl) hf

theorem WildEdges.tokens_insert (r : Route) (written : Text) (shape : Shape) (e : WildEdges)
    (key : Key) : ∀ w ∈ (e.insert r written shape key).1.tokens, w = written ∨ w ∈ e.tokens := by
  intro w hw
  match e with
  | .nil => exact .inl (List.mem_singleton.1 hw)
  | .cons w' s child rest =>
    rw [WildEdges.insert] at hw
    split at hw
    · exact .inr hw
    · rcases List.mem_cons.1 hw with rfl | hw
      · exact .inr List.mem_cons_self
      · rcases WildEdges.tokens_insert r written shape rest key w hw with h | h
        · exact .inl h
        · exact .inr (List.mem_cons_of_mem _ h)

mutual

theorem Tree.wf_insert (r : Route) {t : Tree} {key : Key} (ht : t.WF) (hk : key.Regular) :
    (t.insert r key).1.WF := by
  cases t with
  | mk texts wilds route =>
    match route, key with
    | some e, [] => exact ht
    | none, [] => exact ht
    | _, .char c :: key =>
      rw [Tree.insert_char]
      exact ⟨TextEdges.wf_insert r ht.1 hk, ht.2⟩
    | _, .wild written shape :: key =>
      rw [Tree.insert_wild]
      exact ⟨ht.1, WildEdges.wf_insert r ht.2 hk⟩

theorem TextEdges.wf_insert (r : Route) {e : TextEdges} {c : Char} {key : Key} (he : e.WF)
    (hk : Key.Regular (.char c :: key)) : (e.insert r (.char c :: key)).1.WF := by
  cases e with
  | nil =>
    have := Tree.wf_single r hk
    rw [TextEdges.insert]
    cases hs : Tree.single r (.char c :: key) with
    | mk texts wilds route => rw [hs] at this; exact this.1
  | cons fragment child rest =>
    obtain ⟨hfragment, hchild, hrest, hheads⟩ := he
    rcases hs : Tree.splitCommon fragment (.char c :: key) with ⟨_ | ⟨d, common⟩, left, key'⟩
    · obtain ⟨hleft, hkey, hparted⟩ := Tree.splitCommon_cases hs
      rw [TextEdges.insert_apart hs]
      refine ⟨hfragment, hchild, TextEdges.wf_insert r hrest hk, fun f hf => ?_⟩
      rcases TextEdges.fragments_insert r rest c key f hf with h | ⟨g, hg, h⟩
      · rw [h]
        intro hc
        refine hparted c (by rw [hc, hleft]; rfl) ?_
        rw [← hkey.trans (List.nil_append _)]
        rfl
      · rw [h]
        exact hheads g hg
    · obtain ⟨hsplit, hkey, hparted⟩ := Tree.splitCommon_cases hs
      have hk' : Key.Regular key' := (hkey ▸ hk).append_right
      cases left with
      | nil =>
        rw [TextEdges.insert_along hs]
        exact ⟨hfragment, Tree.wf_insert r hchild hk', hrest, hheads⟩
      | cons l left =>
        rw [TextEdges.insert_fork hs]
        refine ⟨List.cons_ne_nil _ _,
          Tree.wf_fork r (List.cons_ne_nil _ _) hchild hk' hparted, hrest, fun f hf => ?_⟩
        have := hheads f hf
        rwa [hsplit] at this

theorem WildEdges.wf_insert (r : Route) {written : Text} {shape : Shape} {e : WildEdges} {key : Key}
    (he : e.WF) (hk : Key.Regular (.wild written shape :: key)) :
    (e.insert r written shape key).1.WF := by
  cases e with
  | nil =>
    exact ⟨hk written shape List.mem_cons_self, Tree.wf_single r hk.cons, trivial,
      List.not_mem_nil⟩
  | cons w s child rest =>
    obtain ⟨hs, hchild, hrest, htokens⟩ := he
    by_cases hw : w = written
    · subst hw
      rw [WildEdges.insert_along]
      exact ⟨hs, Tree.wf_insert r hchild hk.cons, hrest, htokens⟩
    · rw [WildEdges.insert_apart hw]
      refine ⟨hs, hchild, WildEdges.wf_insert r hrest hk, fun hm => ?_⟩
      rcases WildEdges.tokens_insert r written shape rest key w hm with h | h
      · exact hw h
      · exact htokens h

end

mutual

theorem Tree.adds_insert {r : Route} {t : Tree} {key : Key} (ht : t.WF) (hk : key.Regular)
    (h : (t.insert r key).2 = none) : Adds (key, r) t.entries (t.insert r key).1.entries := by
  cases t with
  | mk texts wilds route =>
    match route, key with
    | some e, [] => cases h
    | none, [] => exact ⟨[], texts.entries ++ wilds.entries, rfl, rfl⟩
    | _, .char c :: key =>
      rw [Tree.insert_char] at h ⊢
      exact ((TextEdges.adds_insert ht.1 hk h).append_left _).append_right _
    | _, .wild written shape :: key =>
      rw [Tree.insert_wild] at h ⊢
      exact (WildEdges.adds_insert ht.2 hk h).append_left _

theorem TextEdges.adds_insert {r : Route} {e : TextEdges} {c : Char} {key : Key} (he : e.WF)
    (hk : Key.Regular (.char c :: key)) (h : (e.insert r (.char c :: key)).2 = none) :
    Adds (.char c :: key, r) e.entries (e.insert r (.char c :: key)).1.entries := by
  cases e with
  | nil =>
    rw [TextEdges.insert, Tree.entries_texts_single]
    exact ⟨[], [], rfl, rfl⟩
  | cons fragment child rest =>
    obtain ⟨-, hchild, hrest, -⟩ := he
    rcases hs : Tree.splitCommon fragment (.char c :: key) with ⟨_ | ⟨d, common⟩, left, key'⟩
    · rw [TextEdges.insert_apart hs] at h ⊢
      exact (TextEdges.adds_insert hrest hk h).append_left _
    · obtain ⟨hfragment, hkey, -⟩ := Tree.splitCommon_cases hs
      cases left with
      | nil =>
        rw [TextEdges.insert_along hs] at h ⊢
        have hadds := Tree.adds_insert hchild (hkey ▸ hk).append_right h
        rw [List.append_nil] at hfragment
        rw [hkey, ← hfragment]
        exact (hadds.before _).append_right _
      | cons l left =>
        rw [TextEdges.insert_fork hs] at h ⊢
        have hadds := (Tree.adds_fork (l :: left) child r key').before (Key.ofText (d :: common))
        rw [← Key.before_append, ← Key.ofText_append, ← hfragment] at hadds
        rw [hkey]
        exact hadds.append_right _

theorem WildEdges.adds_insert {r : Route} {written : Text} {shape : Shape} {e : WildEdges}
    {key : Key} (he : e.WF) (hk : Key.Regular (.wild written shape :: key))
    (h : (e.insert r written shape key).2 = none) :
    Adds (.wild written shape :: key, r) e.entries (e.insert r written shape key).1.entries := by
  cases e with
  | nil =>
    show Adds _ [] (Key.before [.wild written shape] (Tree.single r key).entries ++ [])
    rw [Tree.entries_single]
    exact ⟨[], [], rfl, rfl⟩
  | cons w s child rest =>
    obtain ⟨hs, hchild, hrest, -⟩ := he
    by_cases hw : w = written
    · subst hw
      rw [WildEdges.insert_along] at h ⊢
      have hshape : shape = s := by rw [hs, hk w shape List.mem_cons_self]
      rw [hshape]
      exact ((Tree.adds_insert hchild hk.cons h).before _).append_right _
    · rw [WildEdges.insert_apart hw] at h ⊢
      exact (WildEdges.adds_insert hrest hk h).append_left _

end

/-! ## Trees that grow -/

namespace Tree

/-- The trees that insertions of parsed patterns lead to, with the routes in the order in which they
were inserted. -/
inductive Grown : List Route → Tree → Prop
  | empty : Grown [] .empty
  | insert {routes : List Route} {t t' : Tree} {r : Route} {text : Text} (ht : Grown routes t)
    (hparse : Pattern.parse text = .ok r.pattern)
    (hinsert : t.insert r r.pattern.key = (t', none)) : Grown (routes ++ [r]) t'

namespace Grown

variable {routes : List Route} {t : Tree}

theorem wf (ht : Grown routes t) : t.WF := by
  induction ht with
  | empty => exact ⟨trivial, trivial⟩
  | @insert routes t t' r text ht hparse hinsert ih =>
    have := wf_insert r ih (Pattern.regular_key hparse)
    rwa [hinsert] at this

/-- Each route stands once, under the key of its pattern. -/
theorem entries_perm (ht : Grown routes t) :
    t.entries.Perm (routes.map fun r => (r.pattern.key, r)) := by
  induction ht with
  | empty => exact .refl _
  | @insert routes t t' r text ht hparse hinsert ih =>
    have hperm := (adds_insert ht.wf (Pattern.regular_key hparse) (congrArg (·.2) hinsert)).perm
    rw [hinsert] at hperm
    rw [List.map_append]
    exact hperm.trans ((ih.cons _).trans (List.perm_append_singleton _ _).symm)

theorem mem_entries (ht : Grown routes t) {key : Key} {r : Route} :
    (key, r) ∈ t.entries ↔ r ∈ routes ∧ key = r.pattern.key := by
  rw [ht.entries_perm.mem_iff, List.mem_map]
  constructor
  · rintro ⟨r', hr, he⟩
    cases he
    exact ⟨hr, rfl⟩
  · rintro ⟨hr, rfl⟩
    exact ⟨r, hr, rfl⟩

/-- Each route is told by its text, which is parsed to its pattern. -/
theorem parse_text (ht : Grown routes t) {e : Route} (he : e ∈ routes) :
    Pattern.parse e.text = .ok e.pattern := by
  induction ht with
  | empty => cases he
  | insert ht hparse hinsert ih =>
    rcases List.mem_append.1 he with he | he
    · exact ih he
    · rw [List.mem_singleton.1 he, Route.text, Pattern.text_parse hparse]
      exact hparse

end Grown

end Tree

end HttpRouting
