import HttpRouting.Text.Basic

/-!
Texts by their bytes, which are those of UTF-8. `decode?` reads exactly the well-formed byte
sequences: no overlong forms, no surrogates, nothing above U+10FFFF. A text is cut at a number of
bytes, which works between two characters only, and a percent sign before two hexadecimal digits
stands for a byte.
-/

namespace HttpRouting.Text

/-- The bytes of a text. -/
def utf8 (t : Text) : List UInt8 := t.flatMap String.utf8EncodeChar

/-- The number of bytes of a text. -/
def utf8Size (t : Text) : Nat := t.utf8.length

/-- The six low bits of a continuation byte. -/
def continuation? (b : UInt8) : Option Nat :=
  if 0x80 ≤ b ∧ b < 0xC0 then some (b.toNat - 0x80) else none

/-- The character of a code point that needs at least `least`, if it is one. -/
def scalar? (least n : Nat) : Option Char :=
  if least ≤ n then if h : n.isValidChar then some (Char.ofNatAux n h) else none else none

/-- The text of a byte sequence, if it is well-formed. -/
def decode? : List UInt8 → Option Text
  | [] => some []
  | b :: rest =>
    if b < 0x80 then do return (← scalar? 0 b.toNat) :: (← decode? rest)
    else if b < 0xC0 then none
    else if b < 0xE0 then
      match rest with
      | b₁ :: rest => do
        let x ← continuation? b₁
        return (← scalar? 0x80 ((b.toNat - 0xC0) * 64 + x)) :: (← decode? rest)
      | _ => none
    else if b < 0xF0 then
      match rest with
      | b₁ :: b₂ :: rest => do
        let x ← continuation? b₁
        let y ← continuation? b₂
        return (← scalar? 0x800 (((b.toNat - 0xE0) * 64 + x) * 64 + y)) :: (← decode? rest)
      | _ => none
    else if b < 0xF8 then
      match rest with
      | b₁ :: b₂ :: b₃ :: rest => do
        let x ← continuation? b₁
        let y ← continuation? b₂
        let z ← continuation? b₃
        return (← scalar? 0x10000 ((((b.toNat - 0xF0) * 64 + x) * 64 + y) * 64 + z))
          :: (← decode? rest)
      | _ => none
    else none

/-! ### Boundaries of characters -/

/-- Whether a character starts behind the first `n` bytes, or the text ends there. -/
def isBoundary (t : Text) (n : Nat) : Bool :=
  match t.utf8[n]? with
  | some b => (continuation? b).isNone
  | none => n == t.utf8Size

/-- The text of the first `n` bytes and that of the others, unless a character would be cut. -/
def cut? (t : Text) (n : Nat) : Option (Text × Text) :=
  if isBoundary t n then do return (← decode? (t.utf8.take n), ← decode? (t.utf8.drop n)) else none

/-- The last boundary that is not behind the first `n` bytes. -/
def lastBoundary (t : Text) : Nat → Nat
  | 0 => 0
  | n + 1 => if isBoundary t (n + 1) then n + 1 else lastBoundary t n

/-- The number of bytes that agree before the first two that do not. -/
def agreeing (bytes bytes' : List UInt8) : Nat :=
  ((bytes.zip bytes').takeWhile fun (b, b') => b == b').length

/-- The number of bytes of the longest common start of two texts. Bytes are compared, and those of
a character that is not wholly common are given back. -/
def commonPrefixSize (t u : Text) : Nat := lastBoundary t (agreeing t.utf8 u.utf8)

/-! ### Percent-encoding

A percent sign that no two hexadecimal digits follow stands for itself. -/

/-- The value of a hexadecimal digit, in either case. -/
def hexDigit? (b : UInt8) : Option UInt8 :=
  if 0x30 ≤ b ∧ b ≤ 0x39 then some (b - 0x30)
  else if 0x41 ≤ b ∧ b ≤ 0x46 then some (b - 0x37)
  else if 0x61 ≤ b ∧ b ≤ 0x66 then some (b - 0x57)
  else none

/-- The byte that two hexadecimal digits write. -/
def hexByte? (high low : UInt8) : Option UInt8 := do
  return (← hexDigit? high) * 16 + (← hexDigit? low)

/-- The bytes with every percent triplet replaced by the byte it stands for. -/
def decodeTriplets : List UInt8 → List UInt8
  | [] => []
  | [b] => [b]
  | [b, b₁] => [b, b₁]
  | b :: b₁ :: b₂ :: rest =>
    match if b = 0x25 then hexByte? b₁ b₂ else none with
    | some byte => byte :: decodeTriplets rest
    | none => b :: decodeTriplets (b₁ :: b₂ :: rest)

/-- The percent-decoded text, or none if the decoded bytes are not well-formed. -/
def percentDecode? (t : Text) : Option Text := decode? (decodeTriplets t.utf8)

/-- The percent-decoded text; one whose decoded bytes are not well-formed is kept as it is. -/
def percentDecode (t : Text) : Text := (percentDecode? t).getD t

end HttpRouting.Text
