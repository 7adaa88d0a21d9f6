import HttpRouting.Proofs.Router.History
import Mathlib.Data.List.Nodup

/-!
# Lists of routes

What a router lists of its routes: all of them in the order of registration, those of a method in
its tree and in its table, and a line for each place of a tree. A line is read from left to right.
Behind the closing quote of what leads to the place, and behind the kind of the edge, stands the
pattern of the route that ends there (`Tree.carried?_line`), so that each route has one line
(`Router.uses_list_routes`).
-/

namespace HttpRouting

/-! ## Lines -/

namespace Text

/-- What stands behind the closing quote, read from inside the quotes. -/
def afterQuote : Text → Text
  | [] => []
  | '"' :: t => t
  | '\\' :: _ :: t => afterQuote t
  | _ :: t => afterQuote t

/-- A character that ends nothing and begins no escape. -/
def IsPlain (c : Char) : Prop := c ≠ '"' ∧ c ≠ '\\'

instance (c : Char) : Decidable (IsPlain c) := inferInstanceAs (Decidable (_ ∧ _))

theorem afterQuote_cons {c : Char} (hc : IsPlain c) (t : Text) :
    afterQuote (c :: t) = afterQuote t := by
  rw [afterQuote]
  · exact hc.1
  · exact fun _ _ h => absurd h hc.2

theorem afterQuote_append {s : Text} (hs : ∀ c ∈ s, IsPlain c) (t : Text) :
    afterQuote (s ++ t) = afterQuote t := by
  induction s with
  | nil => rfl
  | cons c s ih =>
    obtain ⟨hc, hs⟩ := List.forall_mem_cons.1 hs
    rw [List.cons_append, afterQuote_cons hc, ih hs]

theorem isPlain_digitChar : ∀ d < 16, IsPlain d.digitChar := by decide

theorem isPlain_toDigits (n : Nat) : ∀ c ∈ Nat.toDigits 16 n, IsPlain c := by
  induction n using Nat.strongRecOn with
  | ind n ih =>
    by_cases hn : n < 16
    · rw [Nat.toDigits_of_lt_base hn]
      exact List.forall_mem_singleton.2 (isPlain_digitChar n hn)
    · rw [Nat.toDigits_of_base_le (by decide) (Nat.le_of_not_lt hn), List.forall_mem_append]
      exact ⟨ih (n / 16) (by omega),
        List.forall_mem_singleton.2 (isPlain_digitChar _ (Nat.mod_lt n (by decide)))⟩

/-- A character inside quotes is passed over, however it is written. -/
theorem afterQuote_quoteChar (c : Char) (t : Text) :
    afterQuote (quoteChar c ++ t) = afterQuote t := by
  unfold quoteChar
  cases hshort : shortForms.lookup c with
  | some letter => rfl
  | none =>
    simp only
    split
    · have hplain : ∀ d ∈ '\x7b' :: (Nat.toDigits 16 c.toNat ++ ['\x7d']), IsPlain d := by
        rw [List.forall_mem_cons, List.forall_mem_append, List.forall_mem_singleton]
        exact ⟨by decide, isPlain_toDigits c.toNat, by decide⟩
      exact afterQuote_append hplain t
    · refine afterQuote_cons ⟨?_, ?_⟩ t
      · rintro rfl
        cases hshort
      · rintro rfl
        cases hshort

theorem afterQuote_quote (s t : Text) : afterQuote (s.flatMap quoteChar ++ '"' :: t) = t := by
  induction s with
  | nil => rfl
  | cons c s ih => rw [List.flatMap_cons, List.append_assoc, afterQuote_quoteChar, ih]

end Text

namespace Tree

/-- The pattern that a line of a listing carries: what follows the arrow, behind the quoted text and
the kind in brackets. -/
def carried? (line : Text) : Option Text :=
  match line.dropWhile (· = ' ') with
  | '"' :: t =>
    Text.dropStart? (· == ·) " -> ".toList (((Text.afterQuote t).dropWhile (· ≠ ']')).drop 1)
  | _ => none

/-- What stands in front of the arrow is passed over. -/
theorem carried?_append (n : Nat) (fragment : Text) {kind : Text} (hkind : ']' ∉ kind)
    (rest : Text) :
    carried? (List.replicate n ' ' ++ Text.quote fragment ++ " [".toList ++ kind ++ [']'] ++ rest) =
      Text.dropStart? (· == ·) " -> ".toList rest := by
  have hspaces : ∀ c ∈ List.replicate n ' ', decide (c = ' ') = true := fun c hc =>
    decide_eq_true (List.eq_of_mem_replicate hc)
  have hbracket : ∀ c ∈ " [".toList ++ kind, decide (c ≠ ']') = true := by
    intro c hc
    refine decide_eq_true ?_
    rintro rfl
    rcases List.mem_append.1 hc with hc | hc
    · revert hc
      decide
    · exact hkind hc
  have hline : List.replicate n ' ' ++ Text.quote fragment ++ " [".toList ++ kind ++ [']'] ++ rest =
      List.replicate n ' ' ++ '"' ::
        (fragment.flatMap Text.quoteChar ++ '"' :: ((" [".toList ++ kind) ++ ']' :: rest)) := by
    simp only [Text.quote, List.append_assoc, List.cons_append, List.nil_append]
  rw [carried?, hline, List.dropWhile_append_of_pos hspaces,
    List.dropWhile_cons_of_neg (by decide)]
  simp only
  rw [Text.afterQuote_quote, List.dropWhile_append_of_pos hbracket,
    List.dropWhile_cons_of_neg (by decide), List.drop_one, List.tail_cons]

theorem carried?_line (depth : Nat) (fragment : Text) {kind : String} (hkind : ']' ∉ kind.toList)
    (route : Option Route) :
    carried? (line depth fragment kind route) = route.map Route.text := by
  unfold line
  rw [carried?_append (2 * depth) fragment hkind]
  cases route <;> rfl

/-- An arrow inside the quotes is not taken for one behind them. -/
example : carried? "  \"a -> b\" [static] -> /x".toList = some "/x".toList := by decide

end Tree

theorem Shape.bracket_notMem_kind (shape : Shape) : ']' ∉ shape.kind.toList := by
  unfold Shape.kind
  split <;> decide

mutual

/-- The lines of a tree carry its routes, one line each. -/
theorem Tree.filterMap_lines (t : Tree) (depth : Nat) (fragment : Text) {kind : String}
    (hkind : ']' ∉ kind.toList) :
    (t.lines depth fragment kind).filterMap Tree.carried? = t.routes.map Route.text := by
  cases t with
  | mk texts wilds route =>
    rw [Tree.lines, Tree.routes, List.filterMap_cons, Tree.carried?_line depth fragment hkind,
      List.filterMap_append, texts.filterMap_lines, wilds.filterMap_lines]
    cases route <;> simp

theorem TextEdges.filterMap_lines (e : TextEdges) (depth : Nat) :
    (e.lines depth).filterMap Tree.carried? = e.routes.map Route.text := by
  cases e with
  | nil => rfl
  | cons fragment child rest =>
    rw [TextEdges.lines, TextEdges.routes, List.filterMap_append,
      child.filterMap_lines depth fragment (by decide), rest.filterMap_lines, List.map_append]

theorem WildEdges.filterMap_lines (e : WildEdges) (depth : Nat) :
    (e.lines depth).filterMap Tree.carried? = e.routes.map Route.text := by
  cases e with
  | nil => rfl
  | cons written shape child rest =>
    rw [WildEdges.lines, WildEdges.routes, List.filterMap_append,
      child.filterMap_lines depth written shape.bracket_notMem_kind, rest.filterMap_lines,
      List.map_append]

end

/-! ## Routes -/

namespace Router

variable {r : Router} {m : Method} {calls : List Call}

/-- The patterns that were registered for a method, in order. -/
def textsOf (m : Method) (calls : List Call) : List Text :=
  (calls.filter (·.method = m)).map Call.pattern

/-- The routes of one place of the map, each with its number and its method. -/
def numbered (x : Method × MethodRoutes) : List (Nat × Method × Text) :=
  x.2.routes.map fun e => (e.number, x.1, e.text)

/-- The calls in order, each with its number and its method. -/
def numberedCalls (calls : List Call) : List (Nat × Method × Text) :=
  calls.zipIdx.map fun x => (x.2, x.1.method, x.1.pattern)

/-- The first line for a method: its name and the number of its routes. -/
def header (m : Method) (n : Nat) : Text :=
  '[' :: m.token ++ "] routes=".toList ++ Nat.toDigits 10 n

theorem mem_numberedCalls {x : Nat × Method × Text} :
    x ∈ numberedCalls calls ↔ ∃ handlers, calls[x.1]? = some ⟨x.2.1, x.2.2, handlers⟩ := by
  obtain ⟨n, m, text⟩ := x
  simp only [numberedCalls, List.mem_map, List.mem_zipIdx_iff_getElem?]
  constructor
  · rintro ⟨⟨call, n⟩, hcall, heq⟩
    cases heq
    exact ⟨call.handlers, hcall⟩
  · rintro ⟨handlers, hcall⟩
    exact ⟨(⟨m, text, handlers⟩, n), hcall, rfl⟩

theorem pairwise_numberedCalls (calls : List Call) :
    (numberedCalls calls).Pairwise fun a b => a.1 < b.1 := by
  have hnumbers : (calls.zipIdx.map Prod.snd).Pairwise (· < ·) := by
    rw [List.zipIdx_map_snd]
    exact List.pairwise_lt_range'
  rw [numberedCalls, List.pairwise_map]
  exact List.pairwise_map.1 hnumbers

namespace Holds

theorem texts_eq (h : r.Holds calls) (m : Method) :
    (r.routesOf m).routes.map Route.text = textsOf m calls := by
  rw [textsOf, ← texts_entriesOf, ← h.entries, List.map_map]
  rfl

theorem nodup_textsOf (h : r.Holds calls) (m : Method) : (textsOf m calls).Nodup := by
  have hsub := (List.filter_sublist (p := fun call : Call => decide (call.method = m)) (l := calls))
  have hnodup := h.distinct.sublist (hsub.map fun call => (call.method, Text.lower call.pattern))
  rw [textsOf, List.Nodup, List.pairwise_map]
  refine (List.pairwise_map.1 hnodup).imp_of_mem fun {a b} ha hb hne htext => hne ?_
  have hm := (List.mem_filter.1 ha).2
  have hm' := (List.mem_filter.1 hb).2
  rw [of_decide_eq_true hm, of_decide_eq_true hm', htext]

theorem mem_numbered (h : r.Holds calls) {n : Nat} {m : Method} {text : Text} :
    (n, m, text) ∈ r.methods.flatMap numbered ↔
      ∃ handlers, calls[n]? = some ⟨m, text, handlers⟩ := by
  have hplace : (n, m, text) ∈ r.methods.flatMap numbered ↔
      ∃ t, (m, t) ∈ r.methods ∧ ∃ e ∈ t.routes, e.number = n ∧ e.text = text := by
    simp only [numbered, List.mem_flatMap, List.mem_map]
    constructor
    · rintro ⟨⟨m', t⟩, ht, e, he, heq⟩
      cases heq
      exact ⟨t, ht, e, he, rfl, rfl⟩
    · rintro ⟨t, ht, e, he, rfl, rfl⟩
      exact ⟨(m, t), ht, e, he, rfl⟩
  rw [hplace, h.reachable.valid.exists_mem_methods fun e => e.number = n ∧ e.text = text]
  simp only [← mem_entriesOf, ← h.entries, List.mem_map, Route.entry, Prod.mk.injEq]
  constructor
  · rintro ⟨e, he, hnumber, htext⟩
    exact ⟨e.handlers, e, he, hnumber, htext, rfl⟩
  · rintro ⟨handlers, e, he, hnumber, htext, -⟩
    exact ⟨e, he, hnumber, htext⟩

theorem nodup_numbered (h : r.Holds calls) : (r.methods.flatMap numbered).Nodup := by
  have hvalid := h.reachable.valid
  rw [List.nodup_flatMap]
  refine ⟨fun x hx => ?_, ?_⟩
  · have hordered := (hvalid.valid x.1 x.2 (lookup_of_mem hvalid.distinct hx)).ordered
    have hnumbers : (numbered x).Pairwise fun a b => a.1 < b.1 := List.pairwise_map.2 hordered
    exact nodup_of_number hnumbers
  · refine (List.pairwise_map.1 hvalid.distinct).imp fun {x y} hne e hx hy => hne ?_
    obtain ⟨_, -, rfl⟩ := List.mem_map.1 hx
    obtain ⟨_, -, heq⟩ := List.mem_map.1 hy
    exact (congrArg (·.2.1) heq).symm

/-- The routes of the map are the calls, though in another order. -/
theorem numbered_perm (h : r.Holds calls) :
    (r.methods.flatMap numbered).Perm (numberedCalls calls) := by
  have hnodup := nodup_of_number (pairwise_numberedCalls calls)
  refine (List.perm_ext_iff_of_nodup h.nodup_numbered hnodup).2 fun x => ?_
  rw [mem_numberedCalls]
  exact h.mem_numbered

/-- Every route is listed once, in the order of registration, however the methods are ordered. -/
theorem routes_eq (h : r.Holds calls) {l : List (Method × MethodRoutes)} (hl : l.Perm r.methods) :
    routes { r with methods := l } = calls.map fun call => (call.method, call.pattern) := by
  -- A number tells the place among the calls, so that sorting undoes any order of the methods.
  have hsort : (l.flatMap numbered).mergeSort (fun a b => a.1 ≤ b.1) = numberedCalls calls :=
    mergeSort_eq_of_perm ((hl.flatMap_right numbered).trans h.numbered_perm)
      (pairwise_numberedCalls calls)
  calc routes { r with methods := l }
      = ((l.flatMap numbered).mergeSort fun a b => a.1 ≤ b.1).map (·.2) := rfl
    _ = (calls.zipIdx.map (·.1)).map fun call => (call.method, call.pattern) := by
        rw [hsort, numberedCalls, List.map_map, List.map_map]
        rfl
    _ = calls.map fun call => (call.method, call.pattern) := by rw [List.zipIdx_map_fst]

/-! ### The routes of a method -/

theorem routesOf?_eq_none_iff (h : r.Holds calls) (m : Method) :
    r.routesOf? m = none ↔ textsOf m calls = [] := by
  rw [← Option.not_isSome_iff_eq_none, h.placed, textsOf, List.map_eq_nil_iff,
    List.filter_eq_nil_iff]
  simp

/-- A method has a table once a route was registered for it. -/
theorem fallback?_eq (h : r.Holds calls) (m : Method) :
    (r.fallback? m).map Fallback.routes =
      if textsOf m calls = [] then none else some (r.routesOf m).routes := by
  have hvalid := (h.reachable.valid.routesOf m).routes_fallback
  simp only [← h.routesOf?_eq_none_iff]
  rw [fallback?, Option.map_map]
  rw [routesOf] at hvalid ⊢
  cases hm : r.routesOf? m with
  | none => rfl
  | some t =>
    rw [hm] at hvalid
    exact congrArg some hvalid

theorem listing_eq (h : r.Holds calls) :
    r.listing = Method.supported.flatMap fun m =>
      if textsOf m calls = [] then []
      else header m (textsOf m calls).length :: (r.routesOf m).tree.listing := by
  unfold listing
  congr 1
  funext m
  simp only [← h.routesOf?_eq_none_iff]
  rw [← h.texts_eq, List.length_map, routesOf]
  cases hm : r.routesOf? m with
  | none => rfl
  | some t => rfl

/-- The lines for a method carry its routes, one line each. -/
theorem carried_perm (h : r.Holds calls) (m : Method) :
    ((r.routesOf m).tree.listing.filterMap Tree.carried?).Perm (textsOf m calls) := by
  rw [Tree.listing, Tree.filterMap_lines _ _ _ (by decide), ← h.texts_eq]
  exact (h.reachable.valid.routesOf m).routes_perm.map Route.text

end Holds

/-- How the routes of a router are listed, told by the calls that registered them. -/
structure Lists (r : Router) (calls : List Call) : Prop where
  /-- The calls are listed in order, whatever the order of the methods. -/
  routes : ∀ l, l.Perm r.methods →
    Router.routes { r with methods := l } = calls.map fun call => (call.method, call.pattern)
  supported : ∀ call ∈ calls, call.method ∈ Method.supported
  /-- The routes of a method are those in its tree, each of them once. -/
  tree : ∀ m, (r.routesOf m).tree.routes.Perm (r.routesOf m).routes
  nodup : ∀ m, (r.routesOf m).routes.Nodup
  entries : ∀ m, (r.routesOf m).routes.map Route.entry = entriesOf m calls
  /-- They are those of its table, in the order of registration. -/
  table : ∀ m, (r.fallback? m).map Fallback.routes =
    if textsOf m calls = [] then none else some (r.routesOf m).routes
  ordered : ∀ m, (r.routesOf m).routes.Pairwise fun a b => a.number < b.number
  /-- The listing has for each method with routes a header with their number and then the lines of
  the tree. -/
  listing : r.listing = Method.supported.flatMap fun m =>
    if textsOf m calls = [] then []
    else header m (textsOf m calls).length :: (r.routesOf m).tree.listing
  /-- Among the lines is one for the pattern of each route. -/
  carried : ∀ m, ((r.routesOf m).tree.listing.filterMap Tree.carried?).Perm (textsOf m calls)
  once : ∀ m, ∀ text ∈ textsOf m calls,
    (r.routesOf m).tree.listing.countP (Tree.carried? · == some text) = 1

/-- However a router is used, none of its routes is lost, doubled or put elsewhere: it lists the
calls that it accepted. -/
theorem uses_list_routes (us : List Use) : (empty.uses us).Lists (empty.accepted us) := by
  have hholds : (empty.uses us).Holds (empty.accepted us) := by
    have huses := holds_empty.uses us
    rwa [holds_empty.noted_accepted us, List.nil_append] at huses
  have hvalid := hholds.reachable.valid.routesOf
  refine ⟨fun l hl => hholds.routes_eq hl, hholds.supported, fun m => (hvalid m).routes_perm,
    fun m => nodup_of_number (hvalid m).ordered, hholds.entries, hholds.fallback?_eq,
    fun m => (hvalid m).ordered, hholds.listing_eq, hholds.carried_perm, fun m text htext => ?_⟩
  rw [← List.count_filterMap, (hholds.carried_perm m).count_eq]
  exact List.count_eq_one_of_mem (hholds.nodup_textsOf m) htext

end Router

end HttpRouting
