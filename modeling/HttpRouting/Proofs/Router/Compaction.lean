import HttpRouting.Proofs.Router.Insertion
import HttpRouting.Proofs.Router.Slicing
import Mathlib.Data.List.Basic
import Mathlib.Data.List.Induction

/-!
# The shape of trees

A tree is compact: text that keys share stands once, and no place is there that tells nothing. What
may stand at a place depends on the symbol before it alone (`Tree.Placed`), and every insertion of a
key that puts wildcards between slashes keeps this at every place (`Tree.compact_insert`). So in a
tree that patterns were inserted into, refused ones included, the edges that lead to a place can be
read off the texts of its routes (`Tree.canonical_ofRoutes`).
-/

namespace HttpRouting

/-! ## Wildcards between slashes -/

namespace Key

/-- The wildcards of a key stand between slashes, and each is written somehow; the first symbol may
come behind the given one. -/
def Spaced : Option Symbol → Key → Prop
  | _, [] => True
  | before, .char c :: key =>
    (∀ w s, before = some (.wild w s) → c = '/') ∧ Spaced (some (.char c)) key
  | before, .wild w s :: key =>
    before = some (.char '/') ∧ w ≠ [] ∧ Spaced (some (.wild w s)) key

theorem Spaced.ofText_append {before : Option Symbol} {key : Key} {c : Char} {t : Text}
    (h : Spaced before (ofText (c :: t) ++ key)) : Spaced ((c :: t).getLast?.map .char) key := by
  induction t generalizing before c with
  | nil => exact h.2
  | cons d t ih => exact ih h.2

/-- Behind a wildcard it does not matter which one it is. -/
theorem Spaced.congr_wild {w w' : Text} {s s' : Shape} {key : Key}
    (h : Spaced (some (.wild w s)) key) : Spaced (some (.wild w' s')) key := by
  match key with
  | [] => trivial
  | .char c :: key => exact ⟨fun _ _ _ => h.1 w s rfl, h.2⟩
  | .wild _ _ :: _ => cases h.1

theorem spaced_ofText {c : Char} {t : Text} {key : Key} (h : ∀ before, Spaced before key) :
    Spaced (some (.char c)) (ofText t ++ key) := by
  induction t generalizing c with
  | nil => exact h _
  | cons d t ih => exact ⟨nofun, ih⟩

end Key

theorem Segment.text_ne_nil {s : Segment} (h : ¬ isLiteral s = true) : text s ≠ [] := by
  obtain ⟨token, hm, htoken⟩ := List.all_eq_false.1 (Bool.eq_false_iff.2 h)
  intro hnil
  have htext : token.text = [] := List.flatMap_eq_nil_iff.1 hnil token hm
  match token with
  | .literal _ => exact htoken rfl
  | .param _ .word | .param _ .int | .catchAll _ => cases htext

theorem Pattern.spaced_key (p : Pattern) (before : Option Symbol) : p.key.Spaced before := by
  unfold Pattern.key
  induction p.segments generalizing before with
  | nil => trivial
  | cons s ss ih =>
    rw [List.flatMap_cons, List.cons_append]
    refine ⟨fun _ _ _ => rfl, ?_⟩
    by_cases hlit : Segment.isLiteral s = true
    · rw [Segment.key_of_isLiteral hlit]
      exact Key.spaced_ofText ih
    · rw [Segment.key_of_not_isLiteral hlit]
      exact ⟨rfl, mt Text.lower_eq_nil.1 (Segment.text_ne_nil hlit), ih _⟩

/-! ## Places -/

namespace Tree

/-- The wildcards of a tree. -/
def wilds : Tree → WildEdges
  | .mk _ wilds _ => wilds

/-- The route that ends at the root of a tree. -/
def route? : Tree → Option Route
  | .mk _ _ route => route

/-- What may stand at a place that is reached over the given symbol. -/
structure Placed (before : Option Symbol) (t : Tree) : Prop where
  wilds : t.wilds.tokens ≠ [] → before = some (.char '/')
  behindWild : ∀ w s, before = some (.wild w s) →
    (∀ f ∈ t.texts.fragments, f.head? = some '/') ∧ (t.route?.isSome ∨ t.texts.fragments ≠ [])
  behindText : ∀ c, before = some (.char c) →
    t.route?.isSome ∨ t.wilds.tokens ≠ [] ∨ 2 ≤ t.texts.fragments.length

end Tree

mutual

/-- Every place of a tree is as what leads to it allows. -/
def Tree.Compact (before : Option Symbol) : Tree → Prop
  | .mk texts wilds route =>
    (Tree.mk texts wilds route).Placed before ∧ texts.Compact ∧ wilds.Compact

def TextEdges.Compact : TextEdges → Prop
  | .nil => True
  | .cons fragment child rest => child.Compact (fragment.getLast?.map .char) ∧ rest.Compact

def WildEdges.Compact : WildEdges → Prop
  | .nil => True
  | .cons written shape child rest =>
    written ≠ [] ∧ child.Compact (some (.wild written shape)) ∧ rest.Compact

end

/-! ## Trees of one route -/

namespace Tree

theorem compact_leaf (r : Route) (before : Option Symbol) :
    (Tree.mk .nil .nil (some r)).Compact before :=
  ⟨⟨fun h => absurd rfl h, fun _ _ _ => ⟨nofun, .inl rfl⟩, fun _ _ => .inl rfl⟩, trivial, trivial⟩

mutual

/-- The tree of a key that starts with a character is one edge for all text up to a wildcard or the
end. -/
theorem single_char (r : Route) {key : Key} {c : Char} (h : key.Spaced (some (.char c))) :
    ∃ f child, single r (.char c :: key) = .mk (.cons (c :: f) child .nil) .nil none ∧
      child.Compact ((c :: f).getLast?.map .char) := by
  match key with
  | [] => exact ⟨[], _, rfl, compact_leaf r _⟩
  | .char d :: key =>
    obtain ⟨f, child, hsingle, hchild⟩ := single_char r h.2
    refine ⟨d :: f, child, ?_, hchild⟩
    rw [single, hsingle]
    rfl
  | .wild w s :: key =>
    obtain ⟨hslash, hw, h⟩ := h
    have hwilds : WildEdges.tokens (.cons w s (single r key) .nil) ≠ [] := List.cons_ne_nil _ _
    exact ⟨[], _, rfl, ⟨fun _ => hslash, nofun, fun _ _ => .inr (.inl hwilds)⟩, trivial, hw,
      compact_single r h, trivial⟩

theorem compact_single (r : Route) {key : Key} {w : Text} {s : Shape}
    (h : key.Spaced (some (.wild w s))) : (single r key).Compact (some (.wild w s)) := by
  match key with
  | [] => exact compact_leaf r _
  | .wild _ _ :: _ => cases h.1
  | .char c :: key =>
    obtain ⟨f, child, hsingle, hchild⟩ := single_char r h.2
    have hc : c = '/' := h.1 w s rfl
    rw [hsingle]
    refine ⟨⟨fun h => absurd rfl h, fun _ _ _ => ⟨fun f' hf => ?_, .inr (List.cons_ne_nil _ _)⟩,
      nofun⟩, ⟨hchild, trivial⟩, trivial⟩
    rw [List.mem_singleton.1 hf, hc]
    rfl

end

/-- Where text parts, two edges go on, or a route ends, or a wildcard follows. -/
theorem compact_fork (r : Route) {left : Text} {child : Tree} {c : Char} {key : Key}
    (hchild : child.Compact (left.getLast?.map .char)) (h : key.Spaced (some (.char c))) :
    (fork left child r key).Compact (some (.char c)) := by
  match key with
  | [] =>
    exact ⟨⟨fun h => absurd rfl h, nofun, fun _ _ => .inl rfl⟩, ⟨hchild, trivial⟩, trivial⟩
  | .char d :: key =>
    obtain ⟨f, child', hsingle, hchild'⟩ := single_char r h.2
    rw [fork, hsingle]
    exact ⟨⟨fun h => absurd rfl h, nofun, fun _ _ => .inr (.inr (Nat.le_refl _))⟩,
      ⟨hchild, hchild', trivial⟩, trivial⟩
  | .wild w s :: key =>
    obtain ⟨hslash, hw, h⟩ := h
    exact ⟨⟨fun _ => hslash, nofun, fun _ _ => .inr (.inl (List.cons_ne_nil _ _))⟩,
      ⟨hchild, trivial⟩, hw, compact_single r h, trivial⟩

end Tree

/-! ## Insertions -/

theorem TextEdges.length_fragments_insert (r : Route) (e : TextEdges) (key : Key) :
    e.fragments.length ≤ (e.insert r key).1.fragments.length := by
  match e with
  | .nil => exact Nat.zero_le _
  | .cons fragment child rest =>
    rcases hs : Tree.splitCommon fragment key with ⟨_ | ⟨c, common⟩, left, key'⟩
    · rw [TextEdges.insert_apart hs]
      exact Nat.succ_le_succ (length_fragments_insert r rest key)
    · cases left with
      | nil =>
        rw [TextEdges.insert_along hs]
        exact Nat.le_refl _
      | cons l left =>
        rw [TextEdges.insert_fork hs]
        exact Nat.le_refl _

theorem WildEdges.tokens_insert_ne_nil (r : Route) (written : Text) (shape : Shape) (e : WildEdges)
    (key : Key) : (e.insert r written shape key).1.tokens ≠ [] := by
  match e with
  | .nil => exact List.cons_ne_nil _ _
  | .cons w s child rest =>
    rw [WildEdges.insert]
    split <;> exact List.cons_ne_nil _ _

theorem Tree.Placed.insert {before : Option Symbol} {t : Tree} (ht : t.Placed before) (r : Route)
    {key : Key} (hk : key.Spaced before) : (t.insert r key).1.Placed before := by
  cases t with
  | mk texts wilds route =>
    match route, key with
    | some e, [] => exact ht
    | none, [] =>
      exact ⟨ht.wilds, fun w s h => ⟨(ht.behindWild w s h).1, .inl rfl⟩, fun _ _ => .inl rfl⟩
    | _, .char c :: key =>
      rw [Tree.insert_char]
      have hlength := texts.length_fragments_insert r (.char c :: key)
      refine ⟨ht.wilds, fun w s h => ⟨fun f hf => ?_, ?_⟩, fun d h => ?_⟩
      · rcases texts.fragments_insert r c key f hf with hc | ⟨g, hg, hc⟩
        · rw [hc, hk.1 w s h]
        · rw [hc]
          exact (ht.behindWild w s h).1 g hg
      · refine (ht.behindWild w s h).2.imp_right fun hne => ?_
        exact List.length_pos_iff.1 (Nat.lt_of_lt_of_le (List.length_pos_iff.2 hne) hlength)
      · exact (ht.behindText d h).imp_right (Or.imp_right fun h => Nat.le_trans h hlength)
    | _, .wild w s :: key =>
      rw [Tree.insert_wild]
      have hne := wilds.tokens_insert_ne_nil r w s key
      exact ⟨fun _ => hk.1, ht.behindWild, fun _ _ => .inr (.inl hne)⟩

mutual

theorem Tree.compact_insert {before : Option Symbol} {t : Tree} (r : Route) {key : Key}
    (ht : t.Compact before) (hk : key.Spaced before) : (t.insert r key).1.Compact before := by
  cases t with
  | mk texts wilds route =>
    obtain ⟨hplaced, htexts, hwilds⟩ := ht
    have hplaced := hplaced.insert r hk
    match route, key with
    | some e, [] => exact ⟨hplaced, htexts, hwilds⟩
    | none, [] => exact ⟨hplaced, htexts, hwilds⟩
    | _, .char c :: key =>
      rw [Tree.insert_char] at hplaced ⊢
      exact ⟨hplaced, TextEdges.compact_insert r htexts hk, hwilds⟩
    | _, .wild written shape :: key =>
      rw [Tree.insert_wild] at hplaced ⊢
      exact ⟨hplaced, htexts, WildEdges.compact_insert r hwilds hk⟩

theorem TextEdges.compact_insert {before : Option Symbol} {e : TextEdges} (r : Route) {c : Char}
    {key : Key} (he : e.Compact) (hk : Key.Spaced before (.char c :: key)) :
    (e.insert r (.char c :: key)).1.Compact := by
  cases e with
  | nil =>
    obtain ⟨f, child, hsingle, hchild⟩ := Tree.single_char r hk.2
    rw [TextEdges.insert, hsingle]
    exact ⟨hchild, trivial⟩
  | cons fragment child rest =>
    obtain ⟨hchild, hrest⟩ := he
    rcases hs : Tree.splitCommon fragment (.char c :: key) with ⟨_ | ⟨d, common⟩, left, key'⟩
    · rw [TextEdges.insert_apart hs]
      exact ⟨hchild, TextEdges.compact_insert r hrest hk⟩
    · obtain ⟨hfragment, hkey, -⟩ := Tree.splitCommon_cases hs
      rw [hkey] at hk
      have hk' := hk.ofText_append
      cases left with
      | nil =>
        rw [TextEdges.insert_along hs]
        rw [List.append_nil] at hfragment
        exact ⟨Tree.compact_insert r hchild (hfragment ▸ hk'), hrest⟩
      | cons l left =>
        rw [TextEdges.insert_fork hs]
        have hlast : ((d :: common) ++ l :: left).getLast? = (l :: left).getLast? := by
          rw [List.getLast?_append, List.getLast?_cons, Option.some_or]
        rw [hfragment, hlast] at hchild
        rw [List.getLast?_cons] at hk'
        refine ⟨?_, hrest⟩
        rw [List.getLast?_cons]
        exact Tree.compact_fork r hchild hk'

theorem WildEdges.compact_insert {e : WildEdges} (r : Route) {written : Text} {shape : Shape}
    {before : Option Symbol} {key : Key} (he : e.Compact)
    (hk : Key.Spaced before (.wild written shape :: key)) :
    (e.insert r written shape key).1.Compact := by
  cases e with
  | nil => exact ⟨hk.2.1, Tree.compact_single r hk.2.2, trivial⟩
  | cons w s child rest =>
    obtain ⟨hne, hchild, hrest⟩ := he
    by_cases hw : w = written
    · subst hw
      rw [WildEdges.insert_along]
      exact ⟨hne, Tree.compact_insert r hchild hk.2.2.congr_wild, hrest⟩
    · rw [WildEdges.insert_apart hw]
      exact ⟨hne, hchild, WildEdges.compact_insert r hrest hk⟩

end

/-! ## Ways through a tree -/

/-- An edge, as it is passed on the way to a place. -/
inductive Label
  | text (fragment : Text)
  | wild (written : Text) (shape : Shape)

namespace Label

/-- The text of an edge. -/
def written : Label → Text
  | .text fragment => fragment
  | .wild written _ => written

/-- What an edge adds to a key. -/
def key : Label → Key
  | .text fragment => .ofText fragment
  | .wild written shape => [.wild written shape]

/-- The last symbol of an edge. -/
def last : Label → Option Symbol
  | .text fragment => fragment.getLast?.map .char
  | .wild written shape => some (.wild written shape)

theorem text_key (label : Label) : label.key.text = label.written := by
  cases label with
  | text fragment => exact Key.text_ofText fragment
  | wild written shape => exact List.append_nil _

theorem text_flatMap_key (labels : List Label) :
    Key.text (labels.flatMap key) = labels.flatMap written := by
  induction labels with
  | nil => rfl
  | cons label labels ih =>
    rw [List.flatMap_cons, List.flatMap_cons, Key.text_append, text_key, ih]

end Label

namespace TextEdges

def toList : TextEdges → List (Text × Tree)
  | .nil => []
  | .cons fragment child rest => (fragment, child) :: rest.toList

theorem mem_entries {e : TextEdges} {fragment : Text} {child : Tree}
    (h : (fragment, child) ∈ e.toList) {key : Key} {r : Route} (hr : (key, r) ∈ child.entries) :
    (.ofText fragment ++ key, r) ∈ e.entries := by
  match e, h with
  | .cons _ _ rest, .head _ => exact List.mem_append_left _ (Key.mem_before.2 ⟨key, hr, rfl⟩)
  | .cons _ _ rest, .tail _ h => exact List.mem_append_right _ (rest.mem_entries h hr)

theorem WF.mem {e : TextEdges} (he : e.WF) {fragment : Text} {child : Tree}
    (h : (fragment, child) ∈ e.toList) : fragment ≠ [] ∧ child.WF := by
  match e, h with
  | .cons _ _ _, .head _ => exact ⟨he.1, he.2.1⟩
  | .cons _ _ _, .tail _ h => exact WF.mem he.2.2.1 h

theorem WF.nodup {e : TextEdges} (he : e.WF) : (e.fragments.map List.head?).Nodup := by
  match e with
  | .nil => exact .nil
  | .cons _ _ rest =>
    refine List.nodup_cons.2 ⟨fun hm => ?_, WF.nodup he.2.2.1⟩
    obtain ⟨f, hf, hhead⟩ := List.mem_map.1 hm
    exact he.2.2.2 f hf hhead

theorem Compact.mem {e : TextEdges} (he : e.Compact) {fragment : Text} {child : Tree}
    (h : (fragment, child) ∈ e.toList) : child.Compact (fragment.getLast?.map .char) := by
  match e, h with
  | .cons _ _ _, .head _ => exact he.1
  | .cons _ _ _, .tail _ h => exact Compact.mem he.2 h

end TextEdges

namespace WildEdges

def toList : WildEdges → List (Text × Shape × Tree)
  | .nil => []
  | .cons written shape child rest => (written, shape, child) :: rest.toList

theorem mem_entries {e : WildEdges} {written : Text} {shape : Shape} {child : Tree}
    (h : (written, shape, child) ∈ e.toList) {key : Key} {r : Route}
    (hr : (key, r) ∈ child.entries) : (.wild written shape :: key, r) ∈ e.entries := by
  match e, h with
  | .cons _ _ _ rest, .head _ => exact List.mem_append_left _ (Key.mem_before.2 ⟨key, hr, rfl⟩)
  | .cons _ _ _ rest, .tail _ h => exact List.mem_append_right _ (rest.mem_entries h hr)

theorem WF.mem {e : WildEdges} (he : e.WF) {written : Text} {shape : Shape} {child : Tree}
    (h : (written, shape, child) ∈ e.toList) : child.WF := by
  match e, h with
  | .cons _ _ _ _, .head _ => exact he.2.1
  | .cons _ _ _ _, .tail _ h => exact WF.mem he.2.2.1 h

theorem WF.nodup {e : WildEdges} (he : e.WF) : e.tokens.Nodup := by
  match e with
  | .nil => exact .nil
  | .cons _ _ _ rest =>
    exact List.nodup_cons.2 ⟨he.2.2.2, WF.nodup he.2.2.1⟩

theorem Compact.mem {e : WildEdges} (he : e.Compact) {written : Text} {shape : Shape} {child : Tree}
    (h : (written, shape, child) ∈ e.toList) :
    written ≠ [] ∧ child.Compact (some (.wild written shape)) := by
  match e, h with
  | .cons _ _ _ _, .head _ => exact ⟨he.1, he.2.1⟩
  | .cons _ _ _ _, .tail _ h => exact Compact.mem he.2.2 h

end WildEdges

namespace Tree

/-- The place that some edges lead to, one after another from the root. -/
inductive Reaches : Tree → List Label → Tree → Prop
  | root (t : Tree) : Reaches t [] t
  | text {t child u : Tree} {fragment : Text} {labels : List Label}
    (hedge : (fragment, child) ∈ t.texts.toList) (h : Reaches child labels u) :
    Reaches t (.text fragment :: labels) u
  | wild {t child u : Tree} {written : Text} {shape : Shape} {labels : List Label}
    (hedge : (written, shape, child) ∈ t.wilds.toList) (h : Reaches child labels u) :
    Reaches t (.wild written shape :: labels) u

/-! ## Canonical trees -/

/-- What the edges that lead to a place tell about it. -/
structure Canonical (labels : List Label) (u : Tree) : Prop where
  /-- No edge on the way is empty. -/
  written : ∀ label ∈ labels, label.written ≠ []
  /-- No two pieces of text go on with the same character. -/
  heads : (u.texts.fragments.map List.head?).Nodup
  /-- No wildcard goes on twice. -/
  tokens : u.wilds.tokens.Nodup
  /-- A wildcard goes on only behind text that ends in a slash. -/
  behindSlash : u.wilds.tokens ≠ [] → ∃ way text, labels = way ++ [.text (text ++ ['/'])]
  /-- Behind a wildcard only text goes on, and it starts with a slash. -/
  behindWild : ∀ way w s, labels = way ++ [.wild w s] →
    ∀ f ∈ u.texts.fragments, f.head? = some '/'
  /-- The way to a route is its pattern in lower case. -/
  route : ∀ r, u.route? = some r → labels.flatMap Label.written = Text.lower r.text
  /-- Where nothing goes on there is a route, unless nothing was inserted. -/
  leaf : u.texts.fragments = [] → u.wilds.tokens = [] → u.route?.isSome ∨ labels = []
  /-- Behind text there is a route, or a wildcard goes on, or at least two pieces of text do. -/
  branching : ∀ way f, labels = way ++ [.text f] →
    u.route?.isSome ∨ u.wilds.tokens ≠ [] ∨ 2 ≤ u.texts.fragments.length

/-- The tree after insertions of routes one after another, refused ones included. -/
def ofRoutes (routes : List Route) : Tree :=
  routes.foldl (fun t r => (t.insert r r.pattern.key).1) .empty

theorem ofRoutes_concat (routes : List Route) (r : Route) :
    ofRoutes (routes ++ [r]) = ((ofRoutes routes).insert r r.pattern.key).1 := List.foldl_concat ..

theorem compact_ofRoutes (routes : List Route) : (ofRoutes routes).Compact none := by
  induction routes using List.reverseRecOn with
  | nil => exact ⟨⟨fun h => absurd rfl h, nofun, nofun⟩, trivial, trivial⟩
  | append_singleton routes r ih =>
    rw [ofRoutes_concat]
    exact compact_insert r ih (r.pattern.spaced_key none)

/-- A refused insertion leaves the tree as if it had not been tried. -/
theorem grown_ofRoutes {routes : List Route}
    (hparse : ∀ r ∈ routes, ∃ text, Pattern.parse text = .ok r.pattern) :
    ∃ accepted, accepted.Sublist routes ∧ Grown accepted (ofRoutes routes) := by
  induction routes using List.reverseRecOn with
  | nil => exact ⟨[], .refl _, .empty⟩
  | append_singleton routes r ih =>
    obtain ⟨accepted, hsub, hgrown⟩ := ih fun r' hr' => hparse r' (List.mem_append_left _ hr')
    obtain ⟨text, htext⟩ := hparse r (List.mem_append_right _ (List.mem_singleton_self r))
    rw [ofRoutes_concat]
    cases hinsert : ((ofRoutes routes).insert r r.pattern.key).2 with
    | none =>
      exact ⟨accepted ++ [r], hsub.append (.refl _), .insert hgrown htext (Prod.ext rfl hinsert)⟩
    | some other =>
      rw [(insert_eq_some hgrown.wf (Pattern.regular_key htext) hinsert).1]
      exact ⟨accepted, hsub.trans (List.sublist_append_left ..), hgrown⟩

/-! ### Facts about a place and the way to it -/

namespace Reaches

variable {t u : Tree} {labels : List Label}

theorem wf (h : t.Reaches labels u) (ht : t.WF) : u.WF := by
  induction h with
  | root t => exact ht
  | @text t _ _ _ _ hedge _ ih =>
    cases t with
    | mk texts wilds route => exact ih (ht.1.mem hedge).2
  | @wild t _ _ _ _ _ hedge _ ih =>
    cases t with
    | mk texts wilds route => exact ih (ht.2.mem hedge)

theorem compact {before : Option Symbol} (h : t.Reaches labels u) (ht : t.Compact before) :
    u.Compact (labels.foldl (fun _ label => label.last) before) := by
  induction h generalizing before with
  | root t => exact ht
  | @text t _ _ _ _ hedge _ ih =>
    cases t with
    | mk texts wilds route => exact ih (ht.2.1.mem hedge)
  | @wild t _ _ _ _ _ hedge _ ih =>
    cases t with
    | mk texts wilds route => exact ih (ht.2.2.mem hedge).2

theorem written_ne_nil {before : Option Symbol} (h : t.Reaches labels u) (ht : t.WF)
    (hcompact : t.Compact before) : ∀ label ∈ labels, label.written ≠ [] := by
  induction h generalizing before with
  | root t => exact nofun
  | @text t _ _ _ _ hedge _ ih =>
    cases t with
    | mk texts wilds route =>
      obtain ⟨hne, hchild⟩ := ht.1.mem hedge
      exact List.forall_mem_cons.2 ⟨hne, ih hchild (hcompact.2.1.mem hedge)⟩
  | @wild t _ _ _ _ _ hedge _ ih =>
    cases t with
    | mk texts wilds route =>
      obtain ⟨hne, hchild⟩ := hcompact.2.2.mem hedge
      exact List.forall_mem_cons.2 ⟨hne, ih (ht.2.mem hedge) hchild⟩

theorem mem_entries {r : Route} (h : t.Reaches labels u) (hr : u.route? = some r) :
    (labels.flatMap Label.key, r) ∈ t.entries := by
  induction h with
  | root t =>
    cases t with
    | mk texts wilds route =>
      cases hr
      exact List.mem_append_left _ (List.mem_append_left _ (List.mem_singleton_self _))
  | @text t _ _ _ _ hedge _ ih =>
    cases t with
    | mk texts wilds route =>
      exact List.mem_append_left _ (List.mem_append_right _ (TextEdges.mem_entries hedge (ih hr)))
  | @wild t _ _ _ _ _ hedge _ ih =>
    cases t with
    | mk texts wilds route => exact List.mem_append_right _ (WildEdges.mem_entries hedge (ih hr))

end Reaches

theorem WF.nodup {t : Tree} (h : t.WF) :
    (t.texts.fragments.map List.head?).Nodup ∧ t.wilds.tokens.Nodup := by
  cases t with
  | mk texts wilds route => exact ⟨h.1.nodup, h.2.nodup⟩

theorem Compact.placed {before : Option Symbol} {t : Tree} (h : t.Compact before) :
    t.Placed before := by
  cases t with
  | mk texts wilds route => exact h.1

/-- The last symbol on the way to a place. -/
theorem last_concat (way : List Label) (label : Label) (before : Option Symbol) :
    (way ++ [label]).foldl (fun _ label => label.last) before = label.last := by
  rw [List.foldl_append]
  rfl

theorem Grown.canonical {accepted : List Route} {t u : Tree} {labels : List Label}
    (hgrown : Grown accepted t) (hcompact : t.Compact none) (h : t.Reaches labels u) :
    u.Canonical labels := by
  have hplaced := (h.compact hcompact).placed
  have hwritten := h.written_ne_nil hgrown.wf hcompact
  have hbranching : ∀ way f, labels = way ++ [.text f] →
      u.route?.isSome ∨ u.wilds.tokens ≠ [] ∨ 2 ≤ u.texts.fragments.length := by
    rintro way f hlabels
    have hne : f ≠ [] := hwritten (.text f) (hlabels ▸ List.mem_append_right _ (.head _))
    rw [hlabels, last_concat, Label.last, List.getLast?_eq_some_getLast hne] at hplaced
    exact hplaced.behindText _ rfl
  have hwf := h.wf hgrown.wf
  refine {
    written := hwritten
    heads := hwf.nodup.1
    tokens := hwf.nodup.2
    behindSlash := ?_
    behindWild := ?_
    route := ?_
    leaf := ?_
    branching := hbranching }
  · intro hne
    have hlast := hplaced.wilds hne
    rcases labels.eq_nil_or_concat' with rfl | ⟨way, label, rfl⟩
    · cases hlast
    · rw [last_concat] at hlast
      cases label with
      | wild w s => cases hlast
      | text f =>
        obtain ⟨c, hc, hslash⟩ := Option.map_eq_some_iff.1 hlast
        cases hslash
        obtain ⟨text, rfl⟩ := List.getLast?_eq_some_iff.1 hc
        exact ⟨way, text, rfl⟩
  · rintro way w s rfl
    rw [last_concat] at hplaced
    exact (hplaced.behindWild w s rfl).1
  · intro r hr
    obtain ⟨-, hkey⟩ := hgrown.mem_entries.1 (h.mem_entries hr)
    rw [← Label.text_flatMap_key, hkey, Pattern.text_key]
    rfl
  · intro htexts hwilds
    rcases labels.eq_nil_or_concat' with rfl | ⟨way, label, rfl⟩
    · exact .inr rfl
    · cases label with
      | text f =>
        rcases hbranching way f rfl with h | h | h
        · exact .inl h
        · exact absurd hwilds h
        · rw [htexts] at h
          cases h
      | wild w s =>
        rw [last_concat] at hplaced
        exact .inl ((hplaced.behindWild w s rfl).2.resolve_right (not_not.2 htexts))

/-- A pattern is refused only if its text is that of an inserted one, letter case aside, and the
tree is then left as it was. -/
theorem refused_ofRoutes {routes : List Route}
    (hparse : ∀ r ∈ routes, ∃ text, Pattern.parse text = .ok r.pattern) {r other : Route}
    {text : Text} (htext : Pattern.parse text = .ok r.pattern)
    (hinsert : ((ofRoutes routes).insert r r.pattern.key).2 = some other) :
    ((ofRoutes routes).insert r r.pattern.key).1 = ofRoutes routes ∧
      other ∈ routes ∧ Text.lower other.text = Text.lower r.text := by
  obtain ⟨accepted, hsub, hgrown⟩ := grown_ofRoutes hparse
  obtain ⟨htree, hm⟩ := insert_eq_some hgrown.wf (Pattern.regular_key htext) hinsert
  obtain ⟨hother, hkey⟩ := hgrown.mem_entries.1 hm
  refine ⟨htree, hsub.subset hother, ?_⟩
  rw [Route.text, Route.text, ← Pattern.text_key, ← hkey, Pattern.text_key]

/-- In the tree that insertions of patterns lead to, refused ones included, every place is
canonical. A pattern is refused only if its text is that of an inserted one, letter case aside, and
the tree is then left as it was, with nothing split and nothing added. So it is where the insertion
goes piece by piece, splits an edge first and then goes on behind it. -/
theorem canonical_ofRoutes {routes : List Route}
    (hparse : ∀ r ∈ routes, ∃ text, Pattern.parse text = .ok r.pattern) :
    (∀ labels u, (ofRoutes routes).Reaches labels u → u.Canonical labels) ∧
    (∀ r text other, Pattern.parse text = .ok r.pattern →
      ((ofRoutes routes).insert r r.pattern.key).2 = some other →
        ((ofRoutes routes).insert r r.pattern.key).1 = ofRoutes routes ∧
        other ∈ routes ∧ Text.lower other.text = Text.lower r.text) ∧
    ∀ r text steps, Pattern.parse text = .ok r.pattern →
      Piece.stepsOf r.pattern.pieces < steps →
        ∃ t other?, (ofRoutes routes).insertBytes? r steps [] r.pattern.pieces = some (t, other?) ∧
          ∀ other, other? = some other → t = ofRoutes routes ∧
            other ∈ routes ∧ Text.lower other.text = Text.lower r.text := by
  obtain ⟨accepted, hsub, hgrown⟩ := grown_ofRoutes hparse
  refine ⟨fun labels u h => hgrown.canonical (compact_ofRoutes routes) h,
    fun r text other htext hinsert => refused_ofRoutes hparse htext hinsert, ?_⟩
  intro r text steps htext hsteps
  exact ⟨_, _, insertBytes?_pieces r _ _ hsteps, fun other hother =>
    refused_ofRoutes hparse htext hother⟩

/-- `/ab` and `/ac/{x}` part behind `/a`; `/AB` comes too late and changes nothing. -/
theorem canonical_ofRoutes_parted : ∃ r r' late : Route,
    r.text = ['/', 'a', 'b'] ∧ r'.text = ['/', 'a', 'c', '/', '{', 'x', '}'] ∧
    late.text = ['/', 'A', 'B'] ∧
    (∃ u, (ofRoutes [r, r']).Reaches [.text ['/', 'a'], .text ['b']] u ∧ u.route? = some r ∧
      u.Canonical [.text ['/', 'a'], .text ['b']]) ∧
    ofRoutes [r, r', late] = ofRoutes [r, r'] := by
  let r : Route := ⟨⟨[[.literal ['a', 'b']]]⟩, [], 0⟩
  let r' : Route := ⟨⟨[[.literal ['a', 'c']], [.param ['x'] .word]]⟩, [], 1⟩
  let late : Route := ⟨⟨[[.literal ['A', 'B']]]⟩, [], 2⟩
  have hparse : ∀ e ∈ [r, r'], ∃ text, Pattern.parse text = .ok e.pattern :=
    List.forall_mem_cons.2 ⟨⟨r.text, rfl⟩, List.forall_mem_singleton.2 ⟨r'.text, rfl⟩⟩
  obtain ⟨hplaces, hrefused, -⟩ := canonical_ofRoutes hparse
  have hreaches : (ofRoutes [r, r']).Reaches [.text ['/', 'a'], .text ['b']]
      (.mk .nil .nil (some r)) := by
    refine .text (.head _) ?_
    exact .text (.head _) (.root _)
  refine ⟨r, r', late, rfl, rfl, rfl, ⟨_, hreaches, rfl, hplaces _ _ hreaches⟩, ?_⟩
  exact (hrefused late late.text r rfl rfl).1

end Tree

end HttpRouting
