import HttpRouting.Proofs.Text.Folding

/-!
# Bytes and texts

Reading bytes is the inverse of writing them: `decode?` reads a text from exactly the bytes that the
text has (`decode?_eq_some_iff`). A percent-decoded value is therefore the text with the decoded
bytes, if there is one (`percentDecode_eq_iff`).
-/

namespace HttpRouting.Text

/-! ## Code points -/

theorem scalar?_eq_some_iff {least n : Nat} {c : Char} :
    scalar? least n = some c ↔ least ≤ n ∧ c.toNat = n := by
  constructor
  · intro h
    rw [scalar?, Option.ite_none_right_eq_some] at h
    obtain ⟨hleast, h⟩ := h
    obtain ⟨hvalid, h⟩ := Option.dite_none_right_eq_some.1 h
    cases h
    exact ⟨hleast, rfl⟩
  · intro h
    obtain ⟨hleast, rfl⟩ := h
    rw [scalar?, if_pos hleast]
    exact dif_pos c.valid

theorem continuation?_eq_some_iff {b : UInt8} {x : Nat} :
    continuation? b = some x ↔ x < 64 ∧ b.toNat = x + 128 := by
  unfold continuation?
  simp only [UInt8.le_iff_toNat_le, UInt8.lt_iff_toNat_lt, Option.ite_none_right_eq_some,
    Option.some.injEq]
  show (128 ≤ b.toNat ∧ b.toNat < 192) ∧ b.toNat - 128 = x ↔ _
  omega

/-- The bytes of a character, by its range. -/
theorem utf8EncodeChar_cases (c : Char) :
    (c.toNat < 0x80 ∧ ∃ b, String.utf8EncodeChar c = [b] ∧ b.toNat = c.toNat) ∨
    (0x80 ≤ c.toNat ∧ c.toNat < 0x800 ∧ ∃ b b₁, String.utf8EncodeChar c = [b, b₁] ∧
      b.toNat = c.toNat / 64 + 0xC0 ∧ b₁.toNat = c.toNat % 64 + 0x80) ∨
    (0x800 ≤ c.toNat ∧ c.toNat < 0x10000 ∧ ∃ b b₁ b₂, String.utf8EncodeChar c = [b, b₁, b₂] ∧
      b.toNat = c.toNat / 4096 + 0xE0 ∧ b₁.toNat = c.toNat / 64 % 64 + 0x80 ∧
      b₂.toNat = c.toNat % 64 + 0x80) ∨
    (0x10000 ≤ c.toNat ∧ c.toNat < 0x110000 ∧
      ∃ b b₁ b₂ b₃, String.utf8EncodeChar c = [b, b₁, b₂, b₃] ∧
        b.toNat = c.toNat / 262144 + 0xF0 ∧ b₁.toNat = c.toNat / 4096 % 64 + 0x80 ∧
        b₂.toNat = c.toNat / 64 % 64 + 0x80 ∧ b₃.toNat = c.toNat % 64 + 0x80) := by
  have hvalid : c.toNat < 0x110000 := by
    have hc : c.toNat < 0xD800 ∨ 0xDFFF < c.toNat ∧ c.toNat < 0x110000 := c.valid
    omega
  unfold String.utf8EncodeChar
  simp only [Char.toNat_val]
  split
  · refine .inl ⟨by omega, _, rfl, ?_⟩
    rw [UInt8.toNat_ofNat']
    omega
  split
  · refine .inr (.inl ⟨by omega, by omega, _, _, rfl, ?_, ?_⟩) <;>
    · rw [UInt8.toNat_ofNat']
      omega
  split
  · refine .inr (.inr (.inl ⟨by omega, by omega, _, _, _, rfl, ?_, ?_, ?_⟩)) <;>
    · rw [UInt8.toNat_ofNat']
      omega
  · refine .inr (.inr (.inr ⟨by omega, hvalid, _, _, _, _, rfl, ?_, ?_, ?_, ?_⟩)) <;>
    · rw [UInt8.toNat_ofNat']
      omega

/-! ## Reading bytes -/

theorem utf8_cons (c : Char) (t : Text) : utf8 (c :: t) = String.utf8EncodeChar c ++ t.utf8 :=
  List.flatMap_cons

/-- The lead byte tells how many bytes a character has. -/
theorem decode?_utf8EncodeChar_append (c : Char) (rest : List UInt8) :
    decode? (String.utf8EncodeChar c ++ rest) = (decode? rest).map (c :: ·) := by
  rcases utf8EncodeChar_cases c with ⟨hc, b, hbytes, hb⟩ |
    ⟨hleast, hc, b, b₁, hbytes, hb, hb₁⟩ | ⟨hleast, hc, b, b₁, b₂, hbytes, hb, hb₁, hb₂⟩ |
    ⟨hleast, hc, b, b₁, b₂, b₃, hbytes, hb, hb₁, hb₂, hb₃⟩ <;>
    rw [hbytes]
  · have hlt : b < 0x80 := UInt8.lt_iff_toNat_lt.2 (hb.symm ▸ hc)
    have hscalar : scalar? 0 b.toNat = some c := scalar?_eq_some_iff.2 ⟨Nat.zero_le _, hb.symm⟩
    rw [List.singleton_append, decode?_cons_of_lt hlt, hscalar]
    rfl
  · have hscalar : scalar? 0x80 ((b.toNat - 0xC0) * 64 + c.toNat % 64) = some c :=
      scalar?_eq_some_iff.2 ⟨by omega, by omega⟩
    have hx := continuation?_eq_some_iff.2 ⟨Nat.mod_lt c.toNat (by decide), hb₁⟩
    have hlead : ¬ b < 0x80 ∧ ¬ b < 0xC0 ∧ b < 0xE0 := by
      simp only [UInt8.lt_iff_toNat_lt, UInt8.reduceToNat]
      omega
    rw [List.cons_append, List.singleton_append, decode?.eq_def]
    simp only [hlead, if_true, if_false, hx, hscalar, Option.bind_eq_bind, Option.bind_some]
    cases decode? rest <;> rfl
  · have hscalar : scalar? 0x800 (((b.toNat - 0xE0) * 64 + c.toNat / 64 % 64) * 64 +
        c.toNat % 64) = some c := scalar?_eq_some_iff.2 ⟨by omega, by omega⟩
    have hx := continuation?_eq_some_iff.2 ⟨Nat.mod_lt (c.toNat / 64) (by decide), hb₁⟩
    have hy := continuation?_eq_some_iff.2 ⟨Nat.mod_lt c.toNat (by decide), hb₂⟩
    have hlead : ¬ b < 0x80 ∧ ¬ b < 0xC0 ∧ ¬ b < 0xE0 ∧ b < 0xF0 := by
      simp only [UInt8.lt_iff_toNat_lt, UInt8.reduceToNat]
      omega
    rw [List.cons_append, List.cons_append, List.singleton_append, decode?.eq_def]
    simp only [hlead, if_true, if_false, hx, hy, hscalar, Option.bind_eq_bind, Option.bind_some]
    cases decode? rest <;> rfl
  · have hscalar : scalar? 0x10000 ((((b.toNat - 0xF0) * 64 + c.toNat / 4096 % 64) * 64 +
        c.toNat / 64 % 64) * 64 + c.toNat % 64) = some c :=
      scalar?_eq_some_iff.2 ⟨by omega, by omega⟩
    have hx := continuation?_eq_some_iff.2 ⟨Nat.mod_lt (c.toNat / 4096) (by decide), hb₁⟩
    have hy := continuation?_eq_some_iff.2 ⟨Nat.mod_lt (c.toNat / 64) (by decide), hb₂⟩
    have hz := continuation?_eq_some_iff.2 ⟨Nat.mod_lt c.toNat (by decide), hb₃⟩
    have hlead : ¬ b < 0x80 ∧ ¬ b < 0xC0 ∧ ¬ b < 0xE0 ∧ ¬ b < 0xF0 ∧ b < 0xF8 := by
      simp only [UInt8.lt_iff_toNat_lt, UInt8.reduceToNat]
      omega
    rw [List.cons_append, List.cons_append, List.cons_append, List.singleton_append,
      decode?.eq_def]
    simp only [hlead, if_true, if_false, hx, hy, hz, hscalar, Option.bind_eq_bind,
      Option.bind_some]
    cases decode? rest <;> rfl

theorem decode?_utf8 (t : Text) : decode? t.utf8 = some t := by
  induction t with
  | nil => rw [utf8, List.flatMap_nil, decode?]
  | cons c t ih => rw [utf8_cons, decode?_utf8EncodeChar_append, ih, Option.map_some]

/-- What is read is written with the same bytes. -/
theorem utf8_of_decode? {bytes : List UInt8} {t : Text} (h : decode? bytes = some t) :
    t.utf8 = bytes := by
  fun_induction decode? bytes generalizing t with
  | case1 =>
    cases h
    rfl
  | case2 b rest hb ih =>
    simp only [Option.bind_eq_bind, Option.bind_eq_some_iff, Option.pure_def, Option.some.injEq,
      scalar?_eq_some_iff] at h
    obtain ⟨c, ⟨-, hc⟩, u, hu, rfl⟩ := h
    have hbytes : String.utf8EncodeChar c = [b] := by
      simp only [UInt8.lt_iff_toNat_lt, UInt8.reduceToNat] at hb
      rcases utf8EncodeChar_cases c with ⟨-, d, hd, h⟩ | h | h | h
      · rw [hd, UInt8.toNat_inj.1 (h.trans hc)]
      all_goals omega
    rw [utf8_cons, ih hu, hbytes]
    rfl
  | case4 b hb hb' hb'' b₁ rest ih =>
    simp only [Option.bind_eq_bind, Option.bind_eq_some_iff, Option.pure_def, Option.some.injEq,
      scalar?_eq_some_iff, continuation?_eq_some_iff] at h
    obtain ⟨x, hx, c, hc, u, hu, rfl⟩ := h
    have hbytes : String.utf8EncodeChar c = [b, b₁] := by
      simp only [UInt8.lt_iff_toNat_lt, UInt8.reduceToNat] at hb' hb''
      rcases utf8EncodeChar_cases c with h | ⟨-, -, d, d₁, hd, h, h₁⟩ | h | h
      · omega
      · have hlead : d = b := UInt8.toNat_inj.1 (by omega)
        have hsecond : d₁ = b₁ := UInt8.toNat_inj.1 (by omega)
        rw [hd, hlead, hsecond]
      all_goals omega
    rw [utf8_cons, ih hu, hbytes]
    rfl
  | case6 b hb hb' hb'' hb₃ b₁ b₂ rest ih =>
    simp only [Option.bind_eq_bind, Option.bind_eq_some_iff, Option.pure_def, Option.some.injEq,
      scalar?_eq_some_iff, continuation?_eq_some_iff] at h
    obtain ⟨x, hx, y, hy, c, hc, u, hu, rfl⟩ := h
    have hbytes : String.utf8EncodeChar c = [b, b₁, b₂] := by
      simp only [UInt8.lt_iff_toNat_lt, UInt8.reduceToNat] at hb'' hb₃
      rcases utf8EncodeChar_cases c with h | h | ⟨-, -, d, d₁, d₂, hd, h, h₁, h₂⟩ | h
      · omega
      · omega
      · have hlead : d = b := UInt8.toNat_inj.1 (by omega)
        have hsecond : d₁ = b₁ := UInt8.toNat_inj.1 (by omega)
        have hthird : d₂ = b₂ := UInt8.toNat_inj.1 (by omega)
        rw [hd, hlead, hsecond, hthird]
      · omega
    rw [utf8_cons, ih hu, hbytes]
    rfl
  | case8 b hb hb' hb'' hb₃ hb₄ b₁ b₂ b₃ rest ih =>
    simp only [Option.bind_eq_bind, Option.bind_eq_some_iff, Option.pure_def, Option.some.injEq,
      scalar?_eq_some_iff, continuation?_eq_some_iff] at h
    obtain ⟨x, hx, y, hy, z, hz, c, hc, u, hu, rfl⟩ := h
    have hbytes : String.utf8EncodeChar c = [b, b₁, b₂, b₃] := by
      simp only [UInt8.lt_iff_toNat_lt, UInt8.reduceToNat] at hb₃ hb₄
      rcases utf8EncodeChar_cases c with h | h | h | ⟨-, -, d, d₁, d₂, d₃, hd, h, h₁, h₂, h₃⟩
      · omega
      · omega
      · omega
      · have hlead : d = b := UInt8.toNat_inj.1 (by omega)
        have hsecond : d₁ = b₁ := UInt8.toNat_inj.1 (by omega)
        have hthird : d₂ = b₂ := UInt8.toNat_inj.1 (by omega)
        have hfourth : d₃ = b₃ := UInt8.toNat_inj.1 (by omega)
        rw [hd, hlead, hsecond, hthird, hfourth]
    rw [utf8_cons, ih hu, hbytes]
    rfl
  | case3 | case5 | case7 | case9 | case10 => cases h

/-- Bytes are read as the text that is written with them. -/
theorem decode?_eq_some_iff {bytes : List UInt8} {t : Text} :
    decode? bytes = some t ↔ t.utf8 = bytes := by
  constructor
  · exact utf8_of_decode?
  · intro h
    rw [← h, decode?_utf8]

/-- A value is decoded to the text that has its bytes with the triplets replaced; it is kept if no
text has them. -/
theorem percentDecode_eq_iff {t u : Text} : percentDecode t = u ↔
    u.utf8 = decodeTriplets t.utf8 ∨ u = t ∧ ∀ v : Text, v.utf8 ≠ decodeTriplets t.utf8 := by
  unfold percentDecode percentDecode?
  cases h : decode? (decodeTriplets t.utf8) with
  | some v =>
    have hv := decode?_eq_some_iff.1 h
    rw [Option.getD_some]
    constructor
    · intro heq
      exact .inl (heq ▸ hv)
    · rintro (hu | ⟨-, hnone⟩)
      · rw [← decode?_eq_some_iff, h] at hu
        exact Option.some.inj hu
      · exact absurd hv (hnone v)
  | none =>
    have hnone : ∀ v : Text, v.utf8 ≠ decodeTriplets t.utf8 := by
      intro v hv
      rw [← decode?_eq_some_iff, h] at hv
      cases hv
    rw [Option.getD_none, or_iff_right (hnone u), and_iff_left hnone, eq_comm]

end HttpRouting.Text
