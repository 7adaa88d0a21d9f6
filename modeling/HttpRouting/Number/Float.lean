import HttpRouting.Number.Shortest
import HttpRouting.Text.Basic

/-!
Floating-point numbers as text. Writing gives the shortest digits that read back, in positional form
from 1e-4 up to 1e16 and with an exponent outside, and always with a point or an exponent. Reading
takes decimals with an optional sign, point and exponent, and the words for infinity and NaN.
-/

namespace HttpRouting.Number

/-- The binary form of a finite positive number. -/
def binaryOf (x : Float) : Binary :=
  let bits := x.toBits.toNat
  let exponent := bits / 0x10000000000000 % 0x800
  let fraction := bits % 0x10000000000000
  if exponent = 0 then ⟨fraction, -1074, false⟩
  else ⟨fraction + 0x10000000000000, Int.ofNat exponent - 1075, fraction = 0 && 1 < exponent⟩

/-- The digits of a decimal without trailing zeros. -/
def significant (n : Nat) : Text :=
  ((Nat.toDigits 10 n).reverse.dropWhile (· = '0')).reverse

def zeros (n : Nat) : Text := List.replicate n '0'

/-- Digits with the point at its place, and at least one digit on either side of it. -/
def positional (digits : Text) (point : Int) : Text :=
  if point ≤ 0 then ['0', '.'] ++ zeros (-point).toNat ++ digits
  else
    let whole := point.toNat
    if digits.length ≤ whole then digits ++ zeros (whole - digits.length) ++ ['.', '0']
    else digits.take whole ++ '.' :: digits.drop whole

/-- Digits with the point after the first one, and an exponent. -/
def exponential (digits : Text) (point : Int) : Text :=
  (match digits with
    | [] => []
    | [d] => [d]
    | d :: more => d :: '.' :: more) ++ 'e' :: (toString (point - 1)).toList

/-- A finite positive number as text. -/
def positiveText (x : Float) : Text :=
  let d := shortest (binaryOf x)
  let digits := significant d.digits
  if -4 < d.point && d.point ≤ 16 then positional digits d.point else exponential digits d.point

/-- A number as text. -/
def floatText (x : Float) : Text :=
  if x.isNaN then ['N', 'a', 'N']
  else
    let sign : Text := if 0x8000000000000000 ≤ x.toBits then ['-'] else []
    let size := x.abs
    sign ++
      if size.isInf then ['i', 'n', 'f']
      else if size == 0 then ['0', '.', '0']
      else positiveText size

/-- The decimal `digits * 10 ^ exponent`, rounded to the nearest number. Decimals far beyond the
range are not computed. -/
def decimalFloat (digits : Nat) (exponent : Int) : Float :=
  let top := (Nat.toDigits 10 digits).length + exponent
  if digits = 0 || top < -330 then 0
  else if 310 < top then 1 / 0
  else if 0 ≤ exponent then Float.ofScientific digits false exponent.toNat
  else Float.ofScientific digits true (-exponent).toNat

/-- Reads the exponent after a mantissa: nothing, or the letter e, an optional sign and digits. -/
def exponent? : Text → Option Int
  | [] => some 0
  | c :: rest =>
    if c = 'e' || c = 'E' then
      let (negative, ds) :=
        match rest with
        | '-' :: ds => (true, ds)
        | '+' :: ds => (false, ds)
        | ds => (false, ds)
      if !ds.isEmpty && ds.all Char.isDigit then
        let n := ds.foldl (fun n d => 10 * n + (d.toNat - 48)) 0
        some (if negative then -Int.ofNat n else n)
      else none
    else none

/-- Reads a decimal without a sign. -/
def unsignedFloat? (t : Text) : Option Float :=
  let whole := t.takeWhile Char.isDigit
  let afterWhole := t.dropWhile Char.isDigit
  let (fraction, left) :=
    match afterWhole with
    | '.' :: rest => (rest.takeWhile Char.isDigit, rest.dropWhile Char.isDigit)
    | rest => ([], rest)
  if whole.isEmpty && fraction.isEmpty then none
  else do
    let exponent ← exponent? left
    let digits := (whole ++ fraction).foldl (fun n d => 10 * n + (d.toNat - 48)) 0
    return decimalFloat digits (exponent - fraction.length)

/-- Reads a decimal or a word without a sign. -/
def magnitude? (t : Text) : Option Float :=
  let word := String.ofList (Text.lower t)
  if word = "inf" || word = "infinity" then some (1 / 0)
  else if word = "nan" then some (0 / 0)
  else unsignedFloat? t

/-- Reads a number. -/
def float? (t : Text) : Option Float :=
  match t with
  | '-' :: rest => (magnitude? rest).map fun x => -x
  | '+' :: rest => magnitude? rest
  | rest => magnitude? rest

end HttpRouting.Number
