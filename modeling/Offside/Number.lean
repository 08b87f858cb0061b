import Offside.Decimal.Shortest
import Offside.Fault
import Offside.Token.Scan
import Offside.Value.Basic

namespace Offside

/-!
# Numbers

## Integer arithmetic

Integers have 64 bits.  A result outside their range is a fault, never a different
number.  Quotients are rounded toward zero, and a remainder has the sign of the
dividend.
-/

namespace Integer

/-- A result, if it is in range. -/
def checked (result : Int) : Except RuntimeCause Int :=
  if Scan.leastInteger ≤ result ∧ result ≤ Scan.greatestInteger then .ok result
  else .error .integerOverflow

/-- `result * base ^ exponent` by repeated squaring; every product has to be in
range.  The exponent is halved at most `steps` times. -/
def powerFrom : (steps : Nat) → (result base : Int) → (exponent : Nat) →
    Except RuntimeCause Int
  | 0, result, _, _ => .ok result
  | steps + 1, result, base, exponent => do
      if exponent = 0 then return result
      let result ← if exponent % 2 = 1 then checked (result * base) else pure result
      let half := exponent / 2
      if half = 0 then return result
      let square ← checked (base * base)
      powerFrom steps result square half

/-- The power of an integer; a negative exponent is a fault. -/
def power (base exponent : Int) : Except RuntimeCause Int :=
  match exponent with
  | .negSucc _ => .error .negativeExponent
  | .ofNat exponent => powerFrom (exponent.log2 + 1) 1 base exponent

/-- An operator applied to two integers. -/
def apply (operator : TokenKind) (left right : Int) : Except RuntimeCause Int :=
  match operator with
  | .mark .plus => checked (left + right)
  | .mark .minus => checked (left - right)
  | .mark .star => checked (left * right)
  | .mark .slash =>
      if right = 0 then .error .divisionByZero else checked (left.tdiv right)
  | .mark .percent =>
      if right = 0 then .error .divisionByZero else checked (left.tmod right)
  | .mark .caret => power left right
  | _ => .error (.unknownOperator operator)

end Integer

/-!
## Floating-point arithmetic

Floats are doubles.  A remainder is exact and has the sign of the dividend.
-/

namespace Floating

/-- Whether a float is negative, also as zero. -/
def isNegative (number : Float) : Bool :=
  Nat.pow 2 63 ≤ number.toBits.toNat

/-- The magnitude of a finite float. -/
def magnitude (number : Float) : Decimal.Magnitude :=
  Decimal.Magnitude.ofBits number.toBits.toNat

/-- The remainder of a finite float by a finite nonzero one. -/
def finiteRemainder (left right : Float) : Float :=
  let dividend := magnitude left
  let divisor := magnitude right
  let exponent := min dividend.exponent divisor.exponent
  let scaled := fun (value : Decimal.Magnitude) =>
    value.significand * Nat.pow 2 (value.exponent - exponent).toNat
  let rest := Float.scaleB (Float.ofNat (scaled dividend % scaled divisor)) exponent
  if isNegative left then -rest else rest

/-- The remainder of a float by a nonzero one; an infinite dividend has none. -/
def remainder (left right : Float) : Except Failure Float :=
  if left.isNaN || right.isNaN then .ok (left + right)
  else if left.isInf then .error (.abort .remainderDomain)
  else if right.isInf then .ok left
  else .ok (finiteRemainder left right)

/-- The power of a float.  A result that is not finite for finite operands is a
fault: of the domain if there is none, of the range if it is too large. -/
def power (base exponent : Float) : Except RuntimeCause Float :=
  let result := Float.pow base exponent
  if !base.isFinite || !exponent.isFinite || result.isFinite then .ok result
  else if result.isNaN || base == 0.0 then .error .powerDomain
  else .error .powerRange

end Floating

/-!
## Order of numbers and texts

Integers and floats compare by their exact values.  What is not a number compares
with nothing.
-/

namespace Floating

/-- The order of an integer and a finite float, by their exact values. -/
def compareInteger (left : Int) (right : Float) : Ordering :=
  let value := magnitude right
  let significand : Int :=
    if isNegative right then -(value.significand : Int) else value.significand
  if 0 ≤ value.exponent then compare left (significand * Int.pow 2 value.exponent.toNat)
  else compare (left * Int.pow 2 (-value.exponent).toNat) significand

/-- The order of an integer and a float. -/
def integerOrder? (left : Int) (right : Float) : Option Ordering :=
  if right.isNaN then none
  else if right.isInf then some (if isNegative right then .gt else .lt)
  else some (compareInteger left right)

/-- The order of two floats. -/
def order? (left right : Float) : Option Ordering :=
  if left < right then some .lt
  else if left == right then some .eq
  else if right < left then some .gt
  else none

end Floating

namespace Value

/-- The order of two values that can be compared; the inner answer is `none` when one
of them is not a number. -/
def order? : Value → Value → Option (Option Ordering)
  | .int left, .int right => some (some (compare left right))
  | .int left, .float right _ => some (Floating.integerOrder? left right)
  | .float left _, .int right =>
      some ((Floating.integerOrder? right left).map Ordering.swap)
  | .float left _, .float right _ => some (Floating.order? left right)
  | .str left, .str right => some (some (Text.compare left right))
  | .char left, .char right => some (some (compare left.toNat right.toNat))
  | _, _ => none

end Value

/-- Whether an order satisfies a comparison operator. -/
def Mark.comparesAs (operator : Mark) (order : Option Ordering) : Bool :=
  match operator, order with
  | _, none => false
  | .less, some order => order == .lt
  | .greater, some order => order == .gt
  | .lessEqual, some order => order != .gt
  | .greaterEqual, some order => order != .lt
  | _, some _ => false

end Offside
