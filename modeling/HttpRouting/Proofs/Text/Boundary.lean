import HttpRouting.Proofs.Text.LetterCase
import HttpRouting.Text.Utf8

/-!
# Cutting texts by their bytes

The first byte of a character is never a continuation byte and the others always are, so that a text
can be cut at a number of bytes exactly if some first characters have that many
(`cut?_eq_some_iff`). Different characters may start with the same bytes, but no character is the
start of another. Giving back the bytes of a character that is not wholly common therefore ends at a
boundary of both texts (`commonPrefixSize_append`).
-/

namespace HttpRouting.Text

/-! ## Bytes of characters -/

theorem utf8_append (s t : Text) : utf8 (s ++ t) = s.utf8 ++ t.utf8 := List.flatMap_append

theorem utf8Size_append (s t : Text) : utf8Size (s ++ t) = s.utf8Size + t.utf8Size := by
  rw [utf8Size, utf8_append, List.length_append]
  rfl

theorem utf8Size_pos (c : Char) (t : Text) : 0 < utf8Size (c :: t) := by
  rw [utf8Size, utf8_cons, List.length_append]
  exact Nat.add_pos_left (List.length_pos_iff.2 String.utf8EncodeChar_ne_nil) _

/-- One byte leads, the others continue. -/
theorem utf8EncodeChar_eq_cons (c : Char) : ∃ lead more, String.utf8EncodeChar c = lead :: more ∧
    continuation? lead = none ∧ ∀ b ∈ more, (continuation? b).isSome = true := by
  have hlead : ∀ b : UInt8, b.toNat < 128 ∨ 192 ≤ b.toNat → continuation? b = none := by
    intro b hb
    rw [← Option.not_isSome_iff_eq_none, Option.isSome_iff_exists]
    rintro ⟨x, hx⟩
    have := continuation?_eq_some_iff.1 hx
    omega
  have hmore : ∀ b : UInt8, 128 ≤ b.toNat → b.toNat < 192 → (continuation? b).isSome = true :=
    fun b h h' => Option.isSome_of_eq_some (continuation?_eq_some_iff.2
      ⟨Nat.sub_lt_left_of_lt_add h h', (Nat.sub_add_cancel h).symm⟩)
  rcases utf8EncodeChar_cases c with ⟨hc, b, hbytes, hb⟩ |
    ⟨hleast, hc, b, b₁, hbytes, hb, hb₁⟩ | ⟨hleast, hc, b, b₁, b₂, hbytes, hb, hb₁, hb₂⟩ |
    ⟨hleast, hc, b, b₁, b₂, b₃, hbytes, hb, hb₁, hb₂, hb₃⟩ <;>
    refine ⟨b, _, hbytes, hlead b (by omega), ?_⟩ <;>
    simp only [List.forall_mem_cons, List.not_mem_nil, false_imp_iff, implies_true, and_true]
  · exact hmore b₁ (by omega) (by omega)
  · exact ⟨hmore b₁ (by omega) (by omega), hmore b₂ (by omega) (by omega)⟩
  · exact ⟨hmore b₁ (by omega) (by omega), hmore b₂ (by omega) (by omega),
      hmore b₃ (by omega) (by omega)⟩

theorem decode?_utf8_append (t : Text) (bytes : List UInt8) :
    decode? (t.utf8 ++ bytes) = (decode? bytes).map (t ++ ·) := by
  induction t with
  | nil => exact Option.map_id'.symm
  | cons c t ih =>
    rw [utf8_cons, List.append_assoc, decode?_utf8EncodeChar_append, ih, Option.map_map]
    rfl

theorem utf8_inj {t u : Text} : t.utf8 = u.utf8 ↔ t = u := by
  rw [← decode?_eq_some_iff, decode?_utf8, Option.some.injEq, eq_comm]

/-- A text whose bytes start with those of another starts with it. -/
theorem exists_append_of_utf8 {t u : Text} {bytes : List UInt8} (h : t.utf8 = u.utf8 ++ bytes) :
    ∃ v, t = u ++ v ∧ v.utf8 = bytes := by
  have ht := decode?_utf8 t
  rw [h, decode?_utf8_append, Option.map_eq_some_iff] at ht
  obtain ⟨v, hv, rfl⟩ := ht
  exact ⟨v, rfl, decode?_eq_some_iff.1 hv⟩

theorem isPrefixOf_utf8 (start t : Text) :
    start.utf8.isPrefixOf t.utf8 = (dropStart? (· == ·) start t).isSome := by
  rw [Bool.eq_iff_iff, List.isPrefixOf_iff_prefix, Option.isSome_iff_exists]
  constructor
  · rintro ⟨bytes, h⟩
    obtain ⟨left, ht, -⟩ := exists_append_of_utf8 h.symm
    exact ⟨left, dropStart?_beq_eq_some_iff.2 ht⟩
  · rintro ⟨left, h⟩
    exact ⟨left.utf8, by rw [dropStart?_beq_eq_some_iff.1 h, utf8_append]⟩

/-! ## Boundaries -/

theorem getElem?_utf8_append (front back : Text) (k : Nat) :
    (utf8 (front ++ back))[front.utf8Size + k]? = back.utf8[k]? := by
  rw [utf8_append, utf8Size, List.getElem?_append_right (Nat.le_add_right _ _),
    Nat.add_sub_cancel_left]

theorem isBoundary_append (front back : Text) :
    isBoundary (front ++ back) front.utf8Size = true := by
  have hbyte : (utf8 (front ++ back))[front.utf8Size]? = back.utf8[0]? :=
    getElem?_utf8_append front back 0
  unfold isBoundary
  rw [hbyte]
  cases back with
  | nil => exact beq_iff_eq.2 (congrArg utf8Size (List.append_nil front).symm)
  | cons c back =>
    obtain ⟨lead, more, hbytes, hlead, -⟩ := utf8EncodeChar_eq_cons c
    rw [utf8_cons, hbytes, List.cons_append, List.getElem?_cons_zero]
    exact Option.isNone_iff_eq_none.2 hlead

/-- Inside a character there is no boundary. -/
theorem isBoundary_inside (front back : Text) (c : Char) {k : Nat}
    (hk : k + 1 < (String.utf8EncodeChar c).length) :
    isBoundary (front ++ c :: back) (front.utf8Size + (k + 1)) = false := by
  obtain ⟨lead, more, hbytes, -, hmore⟩ := utf8EncodeChar_eq_cons c
  rw [hbytes, List.length_cons, Nat.add_lt_add_iff_right] at hk
  have hbyte : (utf8 (front ++ c :: back))[front.utf8Size + (k + 1)]? = some more[k] := by
    rw [getElem?_utf8_append, utf8_cons, hbytes, List.cons_append, List.getElem?_cons_succ,
      List.getElem?_append_left hk, List.getElem?_eq_getElem hk]
  unfold isBoundary
  rw [hbyte]
  exact Option.isNone_eq_false_iff.2 (hmore _ (List.getElem_mem hk))

theorem le_utf8Size_of_isBoundary {t : Text} {n : Nat} (h : isBoundary t n = true) :
    n ≤ t.utf8Size := by
  unfold isBoundary at h
  split at h
  · next hb =>
    obtain ⟨hn, -⟩ := List.getElem?_eq_some_iff.1 hb
    exact Nat.le_of_lt hn
  · exact Nat.le_of_eq (beq_iff_eq.1 h)

theorem lastBoundary_of_isBoundary {t : Text} {n : Nat} (h : isBoundary t n = true) :
    lastBoundary t n = n := by
  cases n with
  | zero => rfl
  | succ n => rw [lastBoundary, if_pos h]

/-- From inside a character one gets back to its start. -/
theorem lastBoundary_inside (front back : Text) (c : Char) {k : Nat}
    (hk : k < (String.utf8EncodeChar c).length) :
    lastBoundary (front ++ c :: back) (front.utf8Size + k) = front.utf8Size := by
  induction k with
  | zero => exact lastBoundary_of_isBoundary (isBoundary_append front (c :: back))
  | succ k ih =>
    rw [← Nat.add_assoc, lastBoundary, Nat.add_assoc, isBoundary_inside front back c hk]
    exact ih (Nat.lt_of_succ_lt hk)

/-! ## Cutting -/

theorem cut?_append (front back : Text) :
    cut? (front ++ back) front.utf8Size = some (front, back) := by
  have htake : (utf8 (front ++ back)).take front.utf8Size = front.utf8 := by
    rw [utf8_append]
    exact List.take_left
  have hdrop : (utf8 (front ++ back)).drop front.utf8Size = back.utf8 := by
    rw [utf8_append]
    exact List.drop_left
  rw [cut?, if_pos (isBoundary_append front back), htake, hdrop, decode?_utf8, decode?_utf8]
  rfl

/-- Cutting gives the first characters that have the given number of bytes. -/
theorem cut?_eq_some_iff {t front back : Text} {n : Nat} :
    cut? t n = some (front, back) ↔ t = front ++ back ∧ front.utf8Size = n := by
  constructor
  · intro h
    rw [cut?, Option.ite_none_right_eq_some] at h
    obtain ⟨hboundary, h⟩ := h
    simp only [Option.bind_eq_bind, Option.bind_eq_some_iff, Option.pure_def, Option.some.injEq,
      Prod.mk.injEq, decode?_eq_some_iff] at h
    obtain ⟨_, hfront, _, hback, rfl, rfl⟩ := h
    refine ⟨?_, ?_⟩
    · rw [← utf8_inj, utf8_append, hfront, hback, List.take_append_drop]
    · rw [utf8Size, hfront, List.length_take]
      exact Nat.min_eq_left (le_utf8Size_of_isBoundary hboundary)
  · rintro ⟨rfl, rfl⟩
    exact cut?_append front back

/-- A text is cut as its lower-case form is. -/
theorem utf8Size_lower (t : Text) : (lower t).utf8Size = t.utf8Size := by
  rw [utf8Size, utf8_lower, List.length_map]
  rfl

theorem cut?_lower {t front back : Text} (h : lower t = front ++ back) :
    cut? t front.utf8Size = some (t.take front.length, t.drop front.length) := by
  have hfront : utf8Size (t.take front.length) = front.utf8Size := by
    rw [← utf8Size_lower, lower, List.map_take]
    exact congrArg utf8Size ((congrArg (List.take _) h).trans List.take_left)
  rw [cut?_eq_some_iff]
  exact ⟨(List.take_append_drop _ _).symm, hfront⟩

/-! ## Common starts -/

/-- Two texts that do not start with the same character. -/
def Parted (t u : Text) : Prop := ∀ c, t.head? = some c → u.head? ≠ some c

theorem exists_common (t u : Text) : ∃ common left right,
    t = common ++ left ∧ u = common ++ right ∧ Parted left right := by
  induction t generalizing u with
  | nil => exact ⟨[], [], u, rfl, rfl, nofun⟩
  | cons c t ih =>
    by_cases h : u.head? = some c
    · obtain ⟨u, rfl⟩ := List.head?_eq_some_iff.1 h
      obtain ⟨common, left, right, rfl, rfl, hparted⟩ := ih u
      exact ⟨c :: common, left, right, rfl, rfl, hparted⟩
    · refine ⟨[], c :: t, u, rfl, rfl, fun d hd => ?_⟩
      cases hd
      exact h

theorem agreeing_cons (b b' : UInt8) (bytes bytes' : List UInt8) :
    agreeing (b :: bytes) (b' :: bytes') = if b = b' then agreeing bytes bytes' + 1 else 0 := by
  unfold agreeing
  rw [List.zip_cons_cons, List.takeWhile_cons]
  by_cases h : b = b'
  · rw [if_pos (beq_iff_eq.2 h), if_pos h, List.length_cons]
  · rw [if_neg (mt beq_iff_eq.1 h), if_neg h, List.length_nil]

theorem agreeing_append (bytes left right : List UInt8) :
    agreeing (bytes ++ left) (bytes ++ right) = bytes.length + agreeing left right := by
  induction bytes with
  | nil => exact (Nat.zero_add _).symm
  | cons b bytes ih =>
    rw [List.cons_append, List.cons_append, agreeing_cons, if_pos rfl, ih, List.length_cons]
    omega

theorem prefix_of_le_agreeing {bytes left right : List UInt8}
    (h : bytes.length ≤ agreeing (bytes ++ left) right) : bytes <+: right := by
  induction bytes generalizing right with
  | nil => exact List.nil_prefix
  | cons b bytes ih =>
    cases right with
    | nil => exact absurd h (by simp [agreeing])
    | cons b' right =>
      rw [List.cons_append, agreeing_cons, List.length_cons] at h
      split at h
      · next hb =>
        rw [hb]
        exact (List.prefix_cons_inj b').2 (ih (Nat.le_of_succ_le_succ h))
      · exact absurd h (Nat.not_succ_le_zero _)

/-- Of the bytes of a character not all agree with the bytes of a text that starts with another. -/
theorem agreeing_lt {c : Char} {left right : Text} (h : Parted (c :: left) right) :
    agreeing (utf8 (c :: left)) right.utf8 < (String.utf8EncodeChar c).length := by
  refine Nat.lt_of_not_le fun hle => ?_
  rw [utf8_cons] at hle
  obtain ⟨bytes, hbytes⟩ := prefix_of_le_agreeing hle
  have hright : right.utf8 = utf8 [c] ++ bytes := by
    rw [← hbytes, utf8_cons]
    exact congrArg (· ++ bytes) (List.append_nil _).symm
  obtain ⟨v, rfl, -⟩ := exists_append_of_utf8 hright
  exact h c rfl rfl

/-- The common start of two texts ends where their characters part. -/
theorem commonPrefixSize_append {common left right : Text} (h : Parted left right) :
    commonPrefixSize (common ++ left) (common ++ right) = common.utf8Size := by
  rw [commonPrefixSize, utf8_append common left, utf8_append common right, agreeing_append]
  cases left with
  | nil => exact lastBoundary_of_isBoundary (isBoundary_append common [])
  | cons c left => exact lastBoundary_inside common left c (agreeing_lt h)

-- The letters differ in the second of their two bytes only.
example : commonPrefixSize ['c', 'a', 'f', 'é'] ['c', 'a', 'f', 'è'] = 3 := by decide

/-- The first `n` bytes of two texts agree and end between characters of both, and they are as many
as possible. -/
structure CommonPrefix (t u : Text) (n : Nat) : Prop where
  isBoundary_left : isBoundary t n = true
  isBoundary_right : isBoundary u n = true
  take_eq : t.utf8.take n = u.utf8.take n
  /-- Where both texts go on, they do so with different characters. -/
  parted : ∃ common left right, cut? t n = some (common, left) ∧ cut? u n = some (common, right) ∧
    ∀ c d, left.head? = some c → right.head? = some d → c ≠ d
  /-- Of texts that start with the same character, at least this is common. -/
  pos : ∀ c, t.head? = some c → u.head? = some c → 0 < n

theorem commonPrefix (t u : Text) : CommonPrefix t u (commonPrefixSize t u) := by
  obtain ⟨common, left, right, rfl, rfl, hparted⟩ := exists_common t u
  rw [commonPrefixSize_append hparted]
  refine ⟨isBoundary_append common left, isBoundary_append common right, ?_, ?_, ?_⟩
  · rw [utf8_append, utf8_append, utf8Size, List.take_left, List.take_left]
  · refine ⟨common, left, right, cut?_append common left, cut?_append common right, ?_⟩
    rintro c d hc hd rfl
    exact hparted c hc hd
  · intro c ht hu
    cases common with
    | nil => exact absurd hu (hparted c ht)
    | cons d common => exact utf8Size_pos d common

end HttpRouting.Text
