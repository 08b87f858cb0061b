import Offside.Decimal.Shortest
import Offside.Text.CodePoint

namespace Offside

/-!
# Written floating-point numbers

A finite double is written with its shortest digits.  The point stands among the
digits while the number lies between `10 ^ (-4)` and `10 ^ 16`, always with a
digit after it; otherwise an exponent with a sign and at least two digits follows.
-/

namespace Decimal

/-- Where positional notation ends and how wide an exponent is at least. -/
structure NumberFormat where
  leastPlaces : Int
  mostPlaces : Int
  exponentWidth : Nat
deriving Repr, DecidableEq

/-- Numbers are positional with -3 to 16 places before the point. -/
def floatFormat : NumberFormat :=
  ⟨-3, 16, 2⟩

/-- The digits of a decimal without trailing zeros. -/
def significantDigits (digits : Text) : Text :=
  (digits.reverse.dropWhile (· == .scalar '0')).reverse

/-- The exponent part of a number. -/
def exponentText (format : NumberFormat) (exponent : Int) : Text :=
  let digits := Text.ofNat exponent.natAbs
  .scalar 'e' :: .scalar (if exponent < 0 then '-' else '+') ::
    (List.replicate (format.exponentWidth - digits.length) (.scalar '0') ++ digits)

/-- The digits with their point, `places` of them before it. -/
def positional (digits : Text) (places : Int) : Text :=
  if places ≤ 0 then
    .scalar '0' :: .scalar '.' :: (List.replicate (-places).toNat (.scalar '0') ++ digits)
  else
    let before := places.toNat
    if digits.length ≤ before then
      digits ++ List.replicate (before - digits.length) (.scalar '0') ++
        [.scalar '.', .scalar '0']
    else digits.take before ++ .scalar '.' :: digits.drop before

/-- The digits with an exponent, one of them before the point. -/
def scientific (format : NumberFormat) (digits : Text) (places : Int) : Text :=
  let mantissa :=
    match digits with
    | first :: second :: rest => first :: .scalar '.' :: second :: rest
    | short => short
  mantissa ++ exponentText format (places - 1)

/-- A positive decimal in a notation. -/
def Scaled.text (format : NumberFormat) (decimal : Scaled) : Text :=
  let all := Text.ofNat decimal.digits
  let places := decimal.exponent + all.length
  let digits := significantDigits all
  if format.leastPlaces ≤ places ∧ places ≤ format.mostPlaces then positional digits places
  else scientific format digits places

/-- The text of a double. -/
def floatText (number : Float) : Text :=
  if number.isNaN then Text.ofChars ['n', 'a', 'n']
  else
    let bits := number.toBits.toNat
    let sign : Text := if Nat.pow 2 63 ≤ bits then [.scalar '-'] else []
    let value := Magnitude.ofBits bits
    sign ++
      if number.isInf then Text.ofChars ['i', 'n', 'f']
      else if value.significand = 0 then Text.ofChars ['0', '.', '0']
      else value.shortest.text floatFormat

end Decimal

end Offside
