/-!
The shortest decimal form of a binary number: of all decimals that round to it, one with the fewest
digits and, among those, the nearest. Everything is computed exactly on natural numbers.
-/

namespace HttpRouting.Number

/-- A positive binary number `m * 2 ^ q`. Numbers in its rounding interval round to it. -/
structure Binary where
  m : Nat
  q : Int
  /-- The number is a power of two, so that the gap below it is half the gap above. -/
  atPower : Bool
  deriving DecidableEq, Repr

/-- A positive decimal number: the digits of `digits` with the point `point` places after their
start, so that 0.25 has digits 25 and point 0. -/
structure Decimal where
  digits : Nat
  point : Int
  deriving DecidableEq, Repr

/-- `n` times the `e`-th power of `base`, as a numerator and a denominator. -/
def scaled (n base : Nat) (e : Int) : Nat × Nat :=
  if 0 ≤ e then (n * Nat.pow base e.toNat, 1) else (n, Nat.pow base (-e).toNat)

/-- Counts the steps, at most `fuel`, of multiplying `num` by ten until it reaches `den`. -/
def stepsUp (den : Nat) : (fuel num : Nat) → Nat
  | 0, _ => 0
  | fuel + 1, num => if den ≤ num then 0 else stepsUp den fuel (num * 10) + 1

/-- The place of the point: the least `e` with `num / den < 10 ^ e`. -/
def pointOf (num den : Nat) : Int :=
  if den ≤ num then (Nat.toDigits 10 (num / den)).length
  else 1 - Int.ofNat (stepsUp den den.log2 num)

/-- The decimal with `count` digits that lies in the rounding interval, if there is one; the nearest
if there are two, and the greater of two that are equally near. -/
def onGrid? (b : Binary) (point : Int) (count : Nat) : Option Nat :=
  let low := 4 * b.m - if b.atPower then 1 else 2
  let (unit, den) := scaled 1 2 (b.q - 2)
  let (stepDen, step) := scaled 1 10 (count - point)
  let value := 4 * b.m * unit * stepDen
  let grid := step * den
  let below := value / grid
  let fits (n : Nat) : Bool :=
    let x := n * grid
    let lowest := low * unit * stepDen
    let highest := (4 * b.m + 2) * unit * stepDen
    if b.m % 2 = 0 then lowest ≤ x && x ≤ highest else lowest < x && x < highest
  match fits below, fits (below + 1) with
  | true, true => some (if 2 * (value - below * grid) < grid then below else below + 1)
  | true, false => some below
  | false, true => some (below + 1)
  | false, false => none

/-- The first grid, from `count` digits on, that has a decimal in the rounding interval. -/
def firstGrid (b : Binary) (point : Int) : (fuel count : Nat) → Decimal
  | 0, count => ⟨(onGrid? b point count).getD 0, point⟩
  | fuel + 1, count =>
    match onGrid? b point count with
    | some n => if n = Nat.pow 10 count then ⟨1, point + 1⟩ else ⟨n, point⟩
    | none => firstGrid b point fuel (count + 1)

/-- The shortest decimal that rounds to a binary number. Seventeen digits always suffice. -/
def shortest (b : Binary) : Decimal :=
  let (num, den) := scaled b.m 2 b.q
  firstGrid b (pointOf num den) 16 1

end HttpRouting.Number
