/-!
Texts are lists of characters, the form in which paths and patterns are cut and compared. Character
classes and case folding are those of ASCII alone: every other character stands only for itself.
Blanks are those of Unicode, and whole numbers are read from ASCII digits.
-/

namespace HttpRouting

/-- A request path, a pattern, or a piece of one. -/
abbrev Text := List Char

namespace Text

/-- Letters, digits and the underscore. -/
def isWordChar (c : Char) : Bool := c.isAlphanum || c == '_'

/-- A name: one or more word characters. -/
def isName (t : Text) : Bool := !t.isEmpty && t.all isWordChar

/-- ASCII letters in lower case; every other character unchanged. -/
def lower (t : Text) : Text := t.map Char.toLower

/-- ASCII letters in upper case; every other character unchanged. -/
def upper (t : Text) : Text := t.map Char.toUpper

/-! ### Cutting -/

/-- The parts between separators; a text without one is a single part. -/
abbrev split (sep : Char) (t : Text) : List Text := t.splitOn sep

/-- What is left of `t` after `start`, whose characters are compared by `same`. -/
def dropStart? (same : Char → Char → Bool) : (start t : Text) → Option Text
  | [], t => some t
  | _ :: _, [] => none
  | a :: start, c :: t => if same a c then dropStart? same start t else none

/-- Whether two characters are the same, ASCII letters in either case. -/
def sameFolded (a c : Char) : Bool := a.toLower == c.toLower

/-! ### Blanks

The characters with the White_Space property of the Unicode standard. -/

/-- The code points of blank characters, as inclusive ranges. -/
def blankRanges : List (Nat × Nat) := [
  (0x9, 0xD), (0x20, 0x20), (0x85, 0x85), (0xA0, 0xA0), (0x1680, 0x1680), (0x2000, 0x200A),
  (0x2028, 0x2029), (0x202F, 0x202F), (0x205F, 0x205F), (0x3000, 0x3000)]

def isBlank (c : Char) : Bool :=
  blankRanges.any fun (low, high) => low ≤ c.toNat && c.toNat ≤ high

/-- The text without blanks at its start and end. -/
def trim (t : Text) : Text :=
  ((t.dropWhile isBlank).reverse.dropWhile isBlank).reverse

/-! ### Whole numbers

One or more digits of any length, in front of them an optional plus sign and, for a signed number,
an optional minus sign. A number out of range is refused. -/

/-- The number that a list of digits writes. -/
def digitsValue (ds : Text) : Nat := ds.foldl (fun n d => 10 * n + (d.toNat - 48)) 0

/-- The value of one or more digits. -/
def digits? (t : Text) : Option Nat :=
  if !t.isEmpty && t.all Char.isDigit then some (digitsValue t) else none

/-- Reads a number below 2 ^ 64. -/
def uint64? (t : Text) : Option Nat :=
  match t with
  | '+' :: ds => (digits? ds).filter (· < 0x10000000000000000)
  | ds => (digits? ds).filter (· < 0x10000000000000000)

/-- Reads a number from -2 ^ 63 up to, but not including, 2 ^ 63. -/
def int64? (t : Text) : Option Int :=
  match t with
  | '+' :: ds => ((digits? ds).filter (· < 0x8000000000000000)).map Int.ofNat
  | '-' :: ds => ((digits? ds).filter (· ≤ 0x8000000000000000)).map fun n => -Int.ofNat n
  | ds => ((digits? ds).filter (· < 0x8000000000000000)).map Int.ofNat

end Text

end HttpRouting
