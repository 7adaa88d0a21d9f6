import HttpRouting.Text.Utf8
import Mathlib.Data.List.Forall2

/-!
# Case folding and plain values

ASCII folding leaves the classes of characters and every character that is no letter alone
(`isWordChar_toLower`, `toLower_eq_iff`), so that a text can be cut in lock-step with its lower-case
form (`dropStart?_lower`). A text of word characters is its own percent-decoding
(`percentDecode_of_word`).
-/

namespace HttpRouting.Text

/-! ## Characters

Classes of characters are ranges of code points; what folding does to them is arithmetic. -/

theorem isDigit_iff {c : Char} : c.isDigit = true ↔ 48 ≤ c.toNat ∧ c.toNat ≤ 57 :=
  Char.isDigit_iff_toNat

theorem isAlpha_iff {c : Char} :
    c.isAlpha = true ↔ (65 ≤ c.toNat ∧ c.toNat ≤ 90) ∨ (97 ≤ c.toNat ∧ c.toNat ≤ 122) := by
  show (decide (65 ≤ c.val ∧ c.val ≤ 90) || (decide (97 ≤ c.val) && decide (c.val ≤ 122))) = true ↔ _
  rw [Bool.or_eq_true, decide_eq_true_iff, Bool.and_eq_true, decide_eq_true_iff, decide_eq_true_iff]
  exact .rfl

theorem isWordChar_iff {c : Char} :
    isWordChar c = true ↔ c.isAlpha = true ∨ c.isDigit = true ∨ c.toNat = 95 := by
  show (c.isAlpha || c.isDigit || c == '_') = true ↔ _
  rw [Bool.or_eq_true, Bool.or_eq_true, beq_iff_eq, or_assoc, ← Char.toNat_inj]
  exact .rfl

/-- Folding changes capital letters only, and moves each by the same distance. -/
theorem toLower_cases (c : Char) :
    c.toLower = c ∨ (65 ≤ c.toNat ∧ c.toNat ≤ 90 ∧ c.toLower.toNat = c.toNat + 32) := by
  unfold Char.toLower
  split
  · next h =>
    have h1 : 65 ≤ c.toNat := h.1
    have h2 : c.toNat ≤ 90 := h.2
    refine .inr ⟨h1, h2, ?_⟩
    show (c.val + 32).toNat = c.toNat + 32
    simp only [UInt32.toNat_add, Char.toNat_val]
    show (c.toNat + 32) % 2 ^ 32 = _
    omega
  · exact .inl rfl

theorem toLower_toLower (c : Char) : c.toLower.toLower = c.toLower := by
  rcases toLower_cases c with h | ⟨h1, h2, h3⟩
  · rw [h, h]
  · rcases toLower_cases c.toLower with h | ⟨_, h', _⟩
    · exact h
    · omega

theorem isDigit_toLower (c : Char) : c.toLower.isDigit = c.isDigit := by
  rcases toLower_cases c with h | ⟨h1, h2, h3⟩
  · rw [h]
  · rw [Bool.eq_iff_iff, isDigit_iff, isDigit_iff]
    omega

theorem isWordChar_toLower (c : Char) : isWordChar c.toLower = isWordChar c := by
  rcases toLower_cases c with h | ⟨h1, h2, h3⟩
  · rw [h]
  · have hlower : isWordChar c.toLower = true := isWordChar_iff.2 (.inl (isAlpha_iff.2 (by omega)))
    have hupper : isWordChar c = true := isWordChar_iff.2 (.inl (isAlpha_iff.2 (by omega)))
    rw [hlower, hupper]

/-- Only a letter is the folded form of another character. -/
theorem toLower_eq_iff {d : Char} (hd : d.isAlpha = false) (c : Char) : c.toLower = d ↔ c = d := by
  rw [Bool.eq_false_iff, Ne, isAlpha_iff] at hd
  rcases toLower_cases c with h | ⟨h1, h2, h3⟩
  · rw [h]
  · constructor
    · rintro rfl; omega
    · rintro rfl; omega

/-- Outside ASCII a character is folded to itself, and nothing else is folded to it. -/
theorem toLower_eq_toLower_iff {c : Char} (hc : 128 ≤ c.toNat) (d : Char) :
    c.toLower = d.toLower ↔ c = d := by
  have h1 : c.toLower = c := by
    rcases toLower_cases c with h | ⟨_, h, _⟩
    · exact h
    · omega
  rw [h1]
  rcases toLower_cases d with h | ⟨h2, h3, h4⟩
  · rw [h]
  · constructor
    · rintro rfl; omega
    · rintro rfl; omega

theorem toNat_lt_of_isWordChar {c : Char} (h : isWordChar c = true) : c.toNat < 128 := by
  rw [isWordChar_iff, isAlpha_iff, isDigit_iff] at h
  omega

theorem isWordChar_of_isDigit {c : Char} (h : c.isDigit = true) : isWordChar c = true :=
  isWordChar_iff.2 (.inr (.inl h))

/-! ## Texts -/

@[simp] theorem lower_nil : lower [] = [] := rfl

@[simp] theorem lower_cons (c : Char) (t : Text) : lower (c :: t) = c.toLower :: lower t := rfl

@[simp] theorem lower_append (s t : Text) : lower (s ++ t) = lower s ++ lower t := List.map_append

theorem lower_lower (t : Text) : lower (lower t) = lower t := by
  rw [lower, lower, List.map_map]
  exact List.map_congr_left fun c _ => toLower_toLower c

@[simp] theorem length_lower (t : Text) : (lower t).length = t.length := List.length_map _

@[simp] theorem lower_eq_nil {t : Text} : lower t = [] ↔ t = [] := List.map_eq_nil_iff

theorem lower_drop (n : Nat) (t : Text) : lower (t.drop n) = (lower t).drop n := List.map_drop

/-- A class of characters that folding respects. -/
theorem all_lower {p : Char → Bool} (hp : ∀ c, p c.toLower = p c) (t : Text) :
    (lower t).all p = t.all p := by
  simp [lower, Function.comp_def, hp]

theorem isName_lower (t : Text) : isName (lower t) = isName t := by
  simp only [isName, all_lower isWordChar_toLower]
  cases t <;> rfl

theorem takeWhile_lower {p : Char → Bool} (hp : ∀ c, p c.toLower = p c) (t : Text) :
    (lower t).takeWhile p = lower (t.takeWhile p) := by
  simp [lower, List.takeWhile_map, Function.comp_def, hp]

theorem dropWhile_lower {p : Char → Bool} (hp : ∀ c, p c.toLower = p c) (t : Text) :
    (lower t).dropWhile p = lower (t.dropWhile p) := by
  simp [lower, List.dropWhile_map, Function.comp_def, hp]

/-! ## Cutting a text off the front -/

section

variable {same : Char → Char → Bool} {s t u : Text}

/-- What is dropped is the same character for character. -/
theorem dropStart?_eq_some_iff : dropStart? same s t = some u ↔
    ∃ v, t = v ++ u ∧ List.Forall₂ (fun a c => same a c = true) s v := by
  induction s generalizing t with
  | nil =>
    simp only [dropStart?, Option.some.injEq, List.forall₂_nil_left_iff, exists_eq_right,
      List.nil_append]
  | cons a s ih =>
    cases t with
    | nil => simp [dropStart?, List.forall₂_cons_left_iff]
    | cons c t =>
      simp only [dropStart?, Option.ite_none_right_eq_some, ih, List.forall₂_cons_left_iff]
      constructor
      · rintro ⟨hc, v, rfl, hv⟩
        exact ⟨c :: v, rfl, c, v, hc, hv, rfl⟩
      · rintro ⟨_, hcut, _, v, hc, hv, rfl⟩
        obtain ⟨rfl, rfl⟩ := List.cons.inj hcut
        exact ⟨hc, v, rfl, hv⟩

theorem dropStart?_append (same : Char → Char → Bool) (s s' t : Text) :
    dropStart? same (s ++ s') t = (dropStart? same s t).bind (dropStart? same s') := by
  induction s generalizing t with
  | nil => rfl
  | cons a s ih =>
    cases t with
    | nil => rfl
    | cons c t =>
      rw [List.cons_append, dropStart?, dropStart?]
      split
      · exact ih t
      · rfl

theorem drop_of_dropStart? (h : dropStart? same s t = some u) : t.drop s.length = u := by
  obtain ⟨v, rfl, hv⟩ := dropStart?_eq_some_iff.1 h
  rw [hv.length_eq, List.drop_left]

theorem dropStart?_beq_eq_some_iff : dropStart? (· == ·) s t = some u ↔ t = s ++ u := by
  simp [dropStart?_eq_some_iff, List.forall₂_eq_eq_eq]

theorem dropStart?_sameFolded_eq_some_iff :
    dropStart? sameFolded s t = some u ↔ ∃ v, t = v ++ u ∧ lower v = lower s := by
  have hlower : ∀ v, List.Forall₂ (fun a c => sameFolded a c = true) s v ↔ lower v = lower s := by
    intro v
    rw [eq_comm, lower, lower, ← List.forall₂_eq_eq_eq, List.forall₂_map_left_iff,
      List.forall₂_map_right_iff]
    simp only [sameFolded, beq_iff_eq]
  simp only [dropStart?_eq_some_iff, hlower]

end

/-- Comparing without regard to case is comparing the lower-case forms. -/
theorem dropStart?_lower (s t : Text) :
    dropStart? (· == ·) (lower s) (lower t) = (dropStart? sameFolded s t).map lower := by
  induction s generalizing t with
  | nil => rfl
  | cons a s ih =>
    cases t with
    | nil => rfl
    | cons c t =>
      by_cases h : a.toLower = c.toLower
      · simp [dropStart?, sameFolded, h, ih]
      · simp [dropStart?, sameFolded, h]

/-! ## Percent-decoding -/

theorem utf8_of_ascii {t : Text} (h : ∀ c ∈ t, c.toNat < 128) :
    t.utf8 = t.map fun c => c.val.toUInt8 := by
  induction t with
  | nil => rfl
  | cons c t ih =>
    have hc : c.utf8Size = 1 := by
      have := h c List.mem_cons_self
      simp [Char.utf8Size, UInt32.le_iff_toNat_le]
      omega
    have ih := ih fun d hd => h d (List.mem_cons_of_mem _ hd)
    simp only [utf8, List.flatMap_cons, List.map_cons] at ih ⊢
    rw [String.utf8EncodeChar_eq_singleton hc, ih]
    rfl

theorem decode?_cons_of_lt {b : UInt8} (hb : b < 0x80) (rest : List UInt8) :
    decode? (b :: rest) = (scalar? 0 b.toNat).bind fun c => (decode? rest).map (c :: ·) := by
  rw [decode?.eq_def]
  simp only [if_pos hb]
  cases scalar? 0 b.toNat <;> cases decode? rest <;> rfl

theorem decode?_ascii {t : Text} (h : ∀ c ∈ t, c.toNat < 128) :
    decode? (t.map fun c => c.val.toUInt8) = some t := by
  induction t with
  | nil => simp [decode?]
  | cons c t ih =>
    have hc : c.toNat < 128 := h c List.mem_cons_self
    have hn : c.val.toUInt8.toNat = c.toNat := by
      simp only [UInt32.toNat_toUInt8, Char.toNat_val]
      omega
    have hs : scalar? 0 c.val.toUInt8.toNat = some c := by
      rw [hn]
      have hv : c.toNat.isValidChar := c.valid
      rw [scalar?, if_pos (Nat.zero_le _), dif_pos hv]
      rfl
    have hlt : c.val.toUInt8 < 0x80 := by
      rw [UInt8.lt_iff_toNat_lt, hn]
      exact hc
    rw [List.map_cons, decode?_cons_of_lt hlt, hs, ih fun d hd => h d (List.mem_cons_of_mem _ hd)]
    rfl

theorem decodeTriplets_of_not_mem {bytes : List UInt8} (h : 0x25 ∉ bytes) :
    decodeTriplets bytes = bytes := by
  fun_induction decodeTriplets bytes with
  | case1 | case2 | case3 => rfl
  | case4 b b₁ b₂ rest byte hb ih =>
    have : b ≠ 0x25 := fun hb' => h (hb' ▸ List.mem_cons_self)
    simp [this] at hb
  | case5 b b₁ b₂ rest hb ih => rw [ih fun hm => h (List.mem_cons_of_mem _ hm)]

/-- Word characters are written as they are: a value made of them is its own decoding. -/
theorem percentDecode_of_word {t : Text} (h : t.all isWordChar = true) : percentDecode t = t := by
  have hword : ∀ c ∈ t, isWordChar c = true := List.all_eq_true.1 h
  have hascii : ∀ c ∈ t, c.toNat < 128 := fun c hc => toNat_lt_of_isWordChar (hword c hc)
  have hplain : 0x25 ∉ t.map fun c => c.val.toUInt8 := by
    intro hm
    obtain ⟨c, hc, he⟩ := List.mem_map.1 hm
    have hn : c.toNat = 0x25 := by
      have := congrArg UInt8.toNat he
      have := hascii c hc
      simp only [UInt32.toNat_toUInt8, Char.toNat_val] at *
      simp at *
      omega
    have : c = '%' := Char.toNat_inj.1 hn
    subst this
    exact absurd (hword _ hc) (by decide)
  rw [percentDecode, percentDecode?, utf8_of_ascii hascii, decodeTriplets_of_not_mem hplain,
    decode?_ascii hascii]
  rfl

end HttpRouting.Text
