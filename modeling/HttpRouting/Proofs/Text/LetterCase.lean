import HttpRouting.Proofs.Text.Utf8

/-!
# Letter case and percent-decoding

Folding the letters of a text is folding those among its bytes (`utf8_lower`). A percent triplet
stands for the same byte in either case, and whether bytes are well-formed does not depend on the
case of the letters among them. So texts that differ in letter case only are decoded to texts that
differ in letter case only (`lower_percentDecode_congr`).
-/

namespace HttpRouting.Text

/-! ## Bytes -/

/-- The byte of a letter in lower case; every other byte unchanged. -/
def foldByte (b : UInt8) : UInt8 := if 0x41 ≤ b ∧ b ≤ 0x5A then b + 0x20 else b

theorem foldByte_cases (b : UInt8) : foldByte b = b ∧ ¬ (65 ≤ b.toNat ∧ b.toNat ≤ 90) ∨
    (65 ≤ b.toNat ∧ b.toNat ≤ 90) ∧ (foldByte b).toNat = b.toNat + 32 := by
  unfold foldByte
  split
  · next h =>
    have hb : 65 ≤ b.toNat ∧ b.toNat ≤ 90 := h
    refine .inr ⟨hb, ?_⟩
    rw [UInt8.toNat_add]
    show (b.toNat + 32) % 256 = b.toNat + 32
    omega
  · next h => exact .inl ⟨rfl, h⟩

/-- Folding changes no byte outside ASCII, and changes none to one. -/
theorem eq_of_foldByte_eq {b b' : UInt8} (hb : 0x80 ≤ b.toNat) (h : foldByte b' = foldByte b) :
    b' = b := by
  rw [← UInt8.toNat_inj] at h ⊢
  rcases foldByte_cases b with ⟨hfold, -⟩ | hfold <;>
    rcases foldByte_cases b' with ⟨hfold', -⟩ | hfold'
  · rwa [hfold, hfold'] at h
  · rw [hfold] at h
    omega
  all_goals omega

theorem foldByte_eq_percent {b : UInt8} : foldByte b = 0x25 ↔ b = 0x25 := by
  rw [← UInt8.toNat_inj, ← UInt8.toNat_inj]
  rcases foldByte_cases b with ⟨hfold, -⟩ | hfold
  · rw [hfold]
  · show (foldByte b).toNat = 37 ↔ b.toNat = 37
    omega

/-- A hexadecimal digit has the same value in either case. -/
theorem hexDigit?_foldByte (b : UInt8) : hexDigit? (foldByte b) = hexDigit? b := by
  rcases foldByte_cases b with ⟨hfold, -⟩ | ⟨hb, hfold⟩
  · rw [hfold]
  unfold hexDigit?
  simp only [UInt8.le_iff_toNat_le, UInt8.reduceToNat]
  by_cases hhex : b.toNat ≤ 70
  · have hvalue : foldByte b - 0x57 = b - 0x37 := by
      rw [← UInt8.toNat_inj, UInt8.toNat_sub, UInt8.toNat_sub]
      simp only [UInt8.reduceToNat]
      omega
    rw [if_neg (by omega), if_neg (by omega), if_pos (by omega), if_neg (by omega),
      if_pos (by omega), hvalue]
  · rw [if_neg (by omega), if_neg (by omega), if_neg (by omega), if_neg (by omega),
      if_neg (by omega), if_neg (by omega)]

theorem hexByte?_foldByte (high low : UInt8) :
    hexByte? (foldByte high) (foldByte low) = hexByte? high low := by
  simp only [hexByte?, hexDigit?_foldByte]

theorem foldByte_foldByte (b : UInt8) : foldByte (foldByte b) = foldByte b := by
  rcases foldByte_cases b with ⟨hfold, -⟩ | hfold
  · rw [hfold, hfold]
  · rcases foldByte_cases (foldByte b) with ⟨htwice, -⟩ | htwice
    · exact htwice
    · omega

theorem map_foldByte_map (bytes : List UInt8) :
    (bytes.map foldByte).map foldByte = bytes.map foldByte := by
  rw [List.map_map]
  exact List.map_congr_left fun b _ => foldByte_foldByte b

/-- Folding first makes no difference to the decoded bytes, letter case aside. -/
theorem decodeTriplets_foldByte (bytes : List UInt8) :
    (decodeTriplets (bytes.map foldByte)).map foldByte = (decodeTriplets bytes).map foldByte := by
  fun_induction decodeTriplets bytes with
  | case1 => rfl
  | case2 b => exact map_foldByte_map [b]
  | case3 b b₁ => exact map_foldByte_map [b, b₁]
  | case4 b b₁ b₂ rest byte hb ih =>
    have hfold : (if foldByte b = 0x25 then hexByte? (foldByte b₁) (foldByte b₂) else none) =
        some byte := by
      simp only [foldByte_eq_percent, hexByte?_foldByte, hb]
    simp only [List.map_cons, decodeTriplets, hfold, ih]
  | case5 b b₁ b₂ rest hb ih =>
    have hfold : (if foldByte b = 0x25 then hexByte? (foldByte b₁) (foldByte b₂) else none) =
        none := by
      simp only [foldByte_eq_percent, hexByte?_foldByte, hb]
    rw [List.map_cons, List.map_cons] at ih
    simp only [List.map_cons, decodeTriplets, hfold, ih, foldByte_foldByte]

theorem decodeTriplets_congr {bytes bytes' : List UInt8}
    (h : bytes.map foldByte = bytes'.map foldByte) :
    (decodeTriplets bytes).map foldByte = (decodeTriplets bytes').map foldByte := by
  rw [← decodeTriplets_foldByte bytes, h, decodeTriplets_foldByte]

/-! ## Texts -/

/-- The byte of an ASCII character is folded as the character is. -/
theorem toNat_foldByte {b : UInt8} {c : Char} (h : b.toNat = c.toNat) :
    (foldByte b).toNat = c.toLower.toNat := by
  unfold foldByte Char.toLower
  have hupper : 0x41 ≤ b ∧ b ≤ 0x5A ↔ c.val ≥ 'A'.val ∧ c.val ≤ 'Z'.val := by
    show 65 ≤ b.toNat ∧ b.toNat ≤ 90 ↔ 65 ≤ c.toNat ∧ c.toNat ≤ 90
    rw [h]
  by_cases hb : 0x41 ≤ b ∧ b ≤ 0x5A
  · have hletter : b.toNat ≤ 90 := hb.2
    rw [if_pos hb, dif_pos (hupper.1 hb), UInt8.toNat_add]
    show (b.toNat + 32) % 256 = (c.val + 32).toNat
    rw [UInt32.toNat_add, Char.toNat_val, ← h]
    show (b.toNat + 32) % 256 = (b.toNat + 32) % 4294967296
    omega
  · rw [if_neg hb, dif_neg (mt hupper.2 hb), h]

theorem eq_of_map_foldByte_eq {bytes bytes' : List UInt8} (hlarge : ∀ b ∈ bytes, 0x80 ≤ b.toNat)
    (h : bytes'.map foldByte = bytes.map foldByte) : bytes' = bytes := by
  induction bytes generalizing bytes' with
  | nil => exact List.map_eq_nil_iff.1 h
  | cons b bytes ih =>
    obtain ⟨hb, hlarge⟩ := List.forall_mem_cons.1 hlarge
    obtain ⟨b', bytes', rfl, hfold, hrest⟩ := List.map_eq_cons_iff.1 h
    rw [eq_of_foldByte_eq hb hfold, ih hlarge hrest]

theorem le_of_mem_utf8EncodeChar {c : Char} (hc : 0x80 ≤ c.toNat) {b : UInt8}
    (hb : b ∈ String.utf8EncodeChar c) : 0x80 ≤ b.toNat := by
  rcases utf8EncodeChar_cases c with ⟨hsmall, -⟩ | ⟨-, -, b₀, b₁, hbytes, h₀, h₁⟩ |
    ⟨-, -, b₀, b₁, b₂, hbytes, h₀, h₁, h₂⟩ | ⟨-, -, b₀, b₁, b₂, b₃, hbytes, h₀, h₁, h₂, h₃⟩
  · omega
  all_goals
    rw [hbytes] at hb
    simp only [List.mem_cons, List.not_mem_nil, or_false] at hb
  · rcases hb with rfl | rfl <;> omega
  · rcases hb with rfl | rfl | rfl <;> omega
  · rcases hb with rfl | rfl | rfl | rfl <;> omega

theorem utf8EncodeChar_of_toNat {c : Char} {b : UInt8} (hb : b.toNat = c.toNat)
    (hc : c.toNat < 0x80) : String.utf8EncodeChar c = [b] := by
  rcases utf8EncodeChar_cases c with ⟨-, b', hbytes, hb'⟩ | h | h | h
  · rw [hbytes, UInt8.toNat_inj.1 (hb'.trans hb.symm)]
  all_goals omega

/-- Bytes that differ from those of a character in letter case only are those of a character that
does. -/
theorem exists_char_of_foldByte {bytes : List UInt8} {c : Char}
    (h : bytes.map foldByte = (String.utf8EncodeChar c).map foldByte) :
    ∃ d, String.utf8EncodeChar d = bytes ∧ d.toLower = c.toLower := by
  by_cases hc : c.toNat < 0x80
  · have hb : (UInt8.ofNat c.toNat).toNat = c.toNat := by
      rw [UInt8.toNat_ofNat']
      omega
    rw [utf8EncodeChar_of_toNat hb hc, List.map_singleton, List.map_eq_singleton_iff] at h
    obtain ⟨b', rfl, hfold⟩ := h
    have hb' : b'.toNat < 0x80 := by
      refine Nat.lt_of_not_le fun hlarge => ?_
      have heq := eq_of_foldByte_eq hlarge hfold.symm
      rw [heq] at hb
      omega
    have hd : b'.toNat = (Char.ofNatAux b'.toNat (.inl (by omega))).toNat := rfl
    refine ⟨_, utf8EncodeChar_of_toNat hd hb', ?_⟩
    rw [← Char.toNat_inj, ← toNat_foldByte hd, hfold, toNat_foldByte hb]
  · have hlarge := fun b => le_of_mem_utf8EncodeChar (Nat.le_of_not_lt hc) (b := b)
    exact ⟨c, (eq_of_map_foldByte_eq hlarge h).symm, rfl⟩

theorem map_foldByte_utf8EncodeChar (c : Char) :
    (String.utf8EncodeChar c).map foldByte = String.utf8EncodeChar c.toLower := by
  by_cases hc : c.toNat < 0x80
  · have hb : (UInt8.ofNat c.toNat).toNat = c.toNat := by
      rw [UInt8.toNat_ofNat']
      omega
    have hlower : c.toLower.toNat < 0x80 := by
      rcases toLower_cases c with heq | ⟨-, hgreatest, heq⟩
      · rw [heq]
        exact hc
      · omega
    rw [utf8EncodeChar_of_toNat hb hc, utf8EncodeChar_of_toNat (toNat_foldByte hb) hlower,
      List.map_singleton]
  · have hlower : c.toLower = c := by
      rcases toLower_cases c with heq | ⟨-, hgreatest, -⟩
      · exact heq
      · omega
    have hlarge := fun b => le_of_mem_utf8EncodeChar (Nat.le_of_not_lt hc) (b := b)
    rw [hlower]
    exact eq_of_map_foldByte_eq hlarge (map_foldByte_map _)

/-- Folding the letters of a text is folding those among its bytes. -/
theorem utf8_lower (t : Text) : (lower t).utf8 = t.utf8.map foldByte := by
  induction t with
  | nil => rfl
  | cons c t ih =>
    rw [lower_cons, utf8_cons, utf8_cons, ih, List.map_append, map_foldByte_utf8EncodeChar]

/-- Bytes that differ from those of a text in letter case only are those of a text that does. -/
theorem exists_text_of_foldByte {bytes : List UInt8} {t : Text}
    (h : bytes.map foldByte = t.utf8.map foldByte) : ∃ u, u.utf8 = bytes ∧ lower u = lower t := by
  induction t generalizing bytes with
  | nil => exact ⟨[], (List.map_eq_nil_iff.1 h).symm, rfl⟩
  | cons c t ih =>
    rw [utf8_cons, List.map_append, List.map_eq_append_iff] at h
    obtain ⟨first, rest, rfl, hfirst, hrest⟩ := h
    obtain ⟨d, hd, hc⟩ := exists_char_of_foldByte hfirst
    obtain ⟨u, hu, ht⟩ := ih hrest
    exact ⟨d :: u, by rw [utf8_cons, hd, hu], by rw [lower_cons, lower_cons, hc, ht]⟩

theorem exists_decode? {bytes bytes' : List UInt8} {t : Text} (ht : decode? bytes = some t)
    (h : bytes.map foldByte = bytes'.map foldByte) :
    ∃ u, decode? bytes' = some u ∧ lower u = lower t := by
  rw [← decode?_eq_some_iff.1 ht] at h
  obtain ⟨u, hu, hlower⟩ := exists_text_of_foldByte h.symm
  exact ⟨u, decode?_eq_some_iff.2 hu, hlower⟩

/-- Texts that differ in letter case only are decoded to texts that do. -/
theorem lower_percentDecode_congr {t u : Text} (h : lower t = lower u) :
    lower (percentDecode t) = lower (percentDecode u) := by
  have hbytes : t.utf8.map foldByte = u.utf8.map foldByte := by
    rw [← utf8_lower, h, utf8_lower]
  have hdecoded := decodeTriplets_congr hbytes
  unfold percentDecode percentDecode?
  cases ht : decode? (decodeTriplets t.utf8) with
  | some v =>
    obtain ⟨w, hw, hlower⟩ := exists_decode? ht hdecoded
    rw [hw, Option.getD_some, Option.getD_some, hlower]
  | none =>
    cases hu : decode? (decodeTriplets u.utf8) with
    | none => exact h
    | some w =>
      obtain ⟨v, hv, -⟩ := exists_decode? hu hdecoded.symm
      rw [ht] at hv
      cases hv

end HttpRouting.Text
