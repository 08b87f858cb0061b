import Offside.Number
import Offside.Run.Action

namespace Offside

/-!
# Operators

`==` and `!=` compare any two values.  The other comparisons take two numbers, two
strings or two characters.  `+` also joins texts and arrays.
-/

namespace Operator

/-- The number of a numeric value, as a float. -/
def asFloat? : Value → Option Float
  | .int value => some (Float.ofInt value)
  | .float value _ => some value
  | _ => none

/-- The code points of a string or a character. -/
def asText? : Value → Option Text
  | .str value => some value
  | .char value => some [value]
  | _ => none

/-- An operator applied to two floats. -/
def floatResult (operator : TokenKind) (span : Span) (left right : Float) :
    Except Failure Float :=
  let refuse := fun (cause : RuntimeCause) => Failure.fault (.located (.runtime cause) span)
  match operator with
  | .mark .plus => .ok (left + right)
  | .mark .minus => .ok (left - right)
  | .mark .star => .ok (left * right)
  | .mark .slash =>
      if right == 0.0 then .error (refuse .divisionByZero) else .ok (left / right)
  | .mark .percent =>
      if right == 0.0 then .error (refuse .divisionByZero) else Floating.remainder left right
  | .mark .caret => (Floating.power left right).mapError refuse
  | _ => .error (refuse (.unknownOperator operator))

/-- An operator applied to two numbers; `none` if one value is no number. -/
def arithmetic? (operator : TokenKind) (span : Span) (left right : Value) :
    Option (Action Value) :=
  match left, right with
  | .int left, .int right =>
      some do return .int (← Action.check (some span) (Integer.apply operator left right))
  | _, _ =>
      match asFloat? left, asFloat? right with
      | some left, some right =>
          some do
            match floatResult operator span left right with
            | .ok number => Action.add (·.addFloat number)
            | .error failure => throw failure
      | _, _ => none

/-- Texts or arrays joined by `+`; `none` for any other operator or values. -/
def joined? (operator : TokenKind) (left right : Value) : Option (Action Value) :=
  if operator = .mark .plus then
    match asText? left, asText? right with
    | some left, some right => some (pure (.str (left ++ right)))
    | _, _ =>
        match left, right with
        | .collection (.array first), .collection (.array second) =>
            some do
              let store ← Action.store
              Action.add (·.addArray (store.items first ++ store.items second))
        | _, _ => none
  else none

/-- An operator applied to two values. -/
def apply (operator : TokenKind) (span : Span) (left right : Value) : Action Value :=
  let refuse := Action.fail (some span) (.operandKinds operator left.kind right.kind)
  match operator with
  | .mark .equal => do return .bool ((← Action.store).equal left right)
  | .mark .notEqual => do return .bool (!(← Action.store).equal left right)
  | .mark .less | .mark .greater | .mark .lessEqual | .mark .greaterEqual =>
      match operator, left.order? right with
      | .mark mark, some order => pure (.bool (mark.comparesAs order))
      | _, _ => refuse
  | _ =>
      match joined? operator left right, arithmetic? operator span left right with
      | some result, _ => result
      | none, some result => result
      | none, none => refuse

end Operator

end Offside
