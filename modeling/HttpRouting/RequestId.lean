import HttpRouting.Text.Utf8

/-!
Request identifiers: 128-bit numbers written as 26 characters of Crockford's base 32, most
significant first, so that ids sort by the time of their creation.
-/

namespace HttpRouting

/-- The identifier of one request. -/
structure RequestId where
  value : BitVec 128
  deriving DecidableEq, Repr

namespace RequestId

/-- Why a text is no identifier. -/
inductive DecodeError
  | invalidLength
  | invalidCharacter
  deriving DecidableEq, Repr

def DecodeError.message : DecodeError → String
  | .invalidLength => "invalid length"
  | .invalidCharacter => "invalid character"

/-- The 32 digits: no I, L, O or U, which are easily misread. -/
def alphabet : List Char := "0123456789ABCDEFGHJKMNPQRSTVWXYZ".toList

/-- The value of a digit, in either case. -/
def digitValue? (c : Char) : Option Nat :=
  alphabet.idxOf? c.toUpper

/-- Reads the digits that are left, `n` being the number read so far. -/
def readDigits (n : Nat) : Text → Except DecodeError Nat
  | [] => .ok n
  | c :: rest =>
    match digitValue? c with
    | some d => readDigits (n * 32 + d) rest
    | none => .error .invalidCharacter

/-- Reads an identifier. Its length is counted in bytes and checked first; of the 130 bits that 26
digits can write, the two highest are dropped. -/
def parse (t : Text) : Except DecodeError RequestId :=
  if t.utf8Size ≠ 26 then .error .invalidLength
  else do return ⟨BitVec.ofNat 128 (← readDigits 0 t)⟩

/-- The `count` lowest digits of a number, most significant first. -/
def digitsOf : (count n : Nat) → Text
  | 0, _ => []
  | count + 1, n => digitsOf count (n / 32) ++ [alphabet.getD (n % 32) '0']

/-- The canonical text. -/
def text (id : RequestId) : Text := digitsOf 26 id.value.toNat

/-- The identifier made at a time, in milliseconds since the Unix epoch, with 80 random bits. -/
def ofParts (millis noise : Nat) : RequestId :=
  ⟨BitVec.ofNat 48 millis ++ BitVec.ofNat 80 noise⟩

/-- The identifier that a request brought along if it can be read, otherwise the fresh one. -/
def ofHeader (header : Option Text) (fresh : RequestId) : RequestId :=
  match header.map parse with
  | some (.ok id) => id
  | _ => fresh

end RequestId

end HttpRouting
