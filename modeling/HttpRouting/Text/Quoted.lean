import HttpRouting.Text.Basic
import HttpRouting.Text.Hidden

/-!
Texts between double quotes, in two forms. `quote` is the one of messages: a backslash before a
quote or a backslash, the short forms of tab, line feed, carriage return and NUL, and hidden
characters by their code point. `jsonString` is the one of JSON, with the other values that reports
are made of.
-/

namespace HttpRouting.Text

/-- The characters that have a short form, each with what follows the backslash in it. -/
def shortForms : List (Char × Char) :=
  [('\x00', '0'), ('\t', 't'), ('\n', 'n'), ('\r', 'r'), ('"', '"'), ('\\', '\\')]

/-- A character by its code point, in hexadecimal digits between braces. -/
def codePointForm (c : Char) : Text :=
  ['\\', 'u', '\x7b'] ++ Nat.toDigits 16 c.toNat ++ ['\x7d']

/-- One character inside quotes. -/
def quoteChar (c : Char) : Text :=
  match shortForms.lookup c with
  | some letter => ['\\', letter]
  | none => if isHidden c then codePointForm c else [c]

/-- The text between double quotes. -/
def quote (t : Text) : Text := '"' :: t.flatMap quoteChar ++ ['"']

/-! ### JSON -/

/-- The characters that have a short form in JSON, each with what follows the backslash in it. -/
def jsonForms : List (Char × Char) :=
  [('\x08', 'b'), ('\t', 't'), ('\n', 'n'), ('\x0c', 'f'), ('\r', 'r'), ('"', '"'), ('\\', '\\')]

/-- A control character by its code point, in four hexadecimal digits. -/
def jsonCodePoint (c : Char) : Text :=
  let digits := Nat.toDigits 16 c.toNat
  ['\\', 'u'] ++ List.replicate (4 - digits.length) '0' ++ digits

/-- One character inside a JSON string. -/
def jsonChar (c : Char) : Text :=
  match jsonForms.lookup c with
  | some letter => ['\\', letter]
  | none => if c < ' ' then jsonCodePoint c else [c]

/-- A JSON string. -/
def jsonString (t : Text) : Text := '"' :: t.flatMap jsonChar ++ ['"']

/-- A JSON array of values that are written already. -/
def jsonArray (items : List Text) : Text := '[' :: List.intercalate [','] items ++ [']']

/-- A JSON object of values that are written already, in the given order. -/
def jsonObject (fields : List (Text × Text)) : Text :=
  '\x7b' :: List.intercalate [','] (fields.map fun (k, v) => jsonString k ++ ':' :: v) ++ ['\x7d']

end HttpRouting.Text
