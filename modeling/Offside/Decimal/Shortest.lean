namespace Offside

/-!
# Shortest decimals of binary floating-point numbers

A finite double is `significand * 2 ^ exponent`.  The decimals that read back as
it fill an interval around it: up to half the distance to each neighbour, with
both ends when the significand is even.  The shortest decimal is the first one
found on the grids of 1, 2, … digits; of two on one grid the nearer is taken,
and of two equally near the even one.
-/

namespace Decimal

/-- The magnitude of a finite nonzero double, `significand * 2 ^ exponent`. -/
structure Magnitude where
  significand : Nat
  exponent : Int
deriving Repr, DecidableEq

/-- A decimal `digits * 10 ^ exponent`. -/
structure Scaled where
  digits : Nat
  exponent : Int
deriving Repr, DecidableEq

namespace Magnitude

/-- The magnitude stored in the low 63 bits of a double. -/
def ofBits (bits : Nat) : Magnitude :=
  let fraction : Nat := bits % Nat.pow 2 52
  let biased : Nat := bits / Nat.pow 2 52 % Nat.pow 2 11
  if biased = 0 then ⟨fraction, -1074⟩
  else ⟨Nat.pow 2 52 + fraction, (biased : Int) - 1075⟩

/-- Whether the neighbour below lies at half the distance of the one above. -/
def closerBelow (value : Magnitude) : Bool :=
  value.significand == Nat.pow 2 52 && value.exponent > -1074

/-- Numerator and denominator of `quarters * 2 ^ (exponent - 2)`. -/
def fraction (value : Magnitude) (quarters : Nat) : Nat × Nat :=
  let power := value.exponent - 2
  if 0 ≤ power then (quarters * Nat.pow 2 power.toNat, 1)
  else (quarters, Nat.pow 2 (-power).toNat)

/-- Compares `count * 10 ^ exponent` with a fraction. -/
def compareGrid (count : Nat) (exponent : Int) (fraction : Nat × Nat) : Ordering :=
  if 0 ≤ exponent then
    compare (count * Nat.pow 10 exponent.toNat * fraction.2) fraction.1
  else
    compare (count * fraction.2) (fraction.1 * Nat.pow 10 (-exponent).toNat)

/-- Whether `count * 10 ^ exponent` reads back as the value. -/
def readsBack (value : Magnitude) (count : Nat) (exponent : Int) : Bool :=
  let quarters := 4 * value.significand
  let low := value.fraction (quarters - if value.closerBelow then 1 else 2)
  let high := value.fraction (quarters + 2)
  let even := value.significand % 2 == 0
  let aboveLow :=
    match compareGrid count exponent low with
    | .gt => true
    | .eq => even
    | .lt => false
  let belowHigh :=
    match compareGrid count exponent high with
    | .lt => true
    | .eq => even
    | .gt => false
  aboveLow && belowHigh

/-- The largest `count` with `count * 10 ^ exponent` at most the value. -/
def gridFloor (value : Magnitude) (exponent : Int) : Nat :=
  let exact := value.fraction (4 * value.significand)
  if 0 ≤ exponent then exact.1 / (exact.2 * Nat.pow 10 exponent.toNat)
  else exact.1 * Nat.pow 10 (-exponent).toNat / exact.2

/-- Compares the distances of the value to `count` and to `count + 1` on a grid. -/
def compareNeighbours (value : Magnitude) (count : Nat) (exponent : Int) : Ordering :=
  let exact := value.fraction (4 * value.significand)
  (compareGrid (2 * count + 1) exponent (2 * exact.1, exact.2)).swap

/-- The decimal of a grid that reads back, if there is one. -/
def onGrid? (value : Magnitude) (exponent : Int) : Option Scaled :=
  let below := value.gridFloor exponent
  match value.readsBack below exponent, value.readsBack (below + 1) exponent with
  | false, false => none
  | true, false => some ⟨below, exponent⟩
  | false, true => some ⟨below + 1, exponent⟩
  | true, true =>
      match value.compareNeighbours below exponent with
      | .lt => some ⟨below, exponent⟩
      | .gt => some ⟨below + 1, exponent⟩
      | .eq => some ⟨if below % 2 = 0 then below else below + 1, exponent⟩

/-- The number of places before the decimal point: the least `places` with the
value below `10 ^ places`, searched downwards from `start`. -/
def placesFrom (value : Magnitude) : Nat → Int → Int
  | 0, start => start
  | steps + 1, start =>
      if value.gridFloor (start - 1) = 0 then placesFrom value steps (start - 1)
      else start

/-- The number of places before the decimal point; no double reaches `10 ^ 309`
and none but zero is below `10 ^ (-324)`. -/
def places (value : Magnitude) : Int :=
  value.placesFrom 640 309

/-- The first grid from `width` digits on that holds a decimal reading back. -/
def searchGrids (value : Magnitude) (places : Int) : Nat → Nat → Scaled
  | 0, width => ⟨value.gridFloor (places - width), places - width⟩
  | steps + 1, width =>
      match value.onGrid? (places - width) with
      | some decimal => decimal
      | none => searchGrids value places steps (width + 1)

/-- The shortest decimal that reads back; 17 digits always suffice. -/
def shortest (value : Magnitude) : Scaled :=
  value.searchGrids value.places 17 1

end Magnitude

end Decimal

end Offside
