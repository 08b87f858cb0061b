import Offside.Value.Basic

namespace Offside

/-!
# Structural keys

The key of a value is its structure, by which maps and sets tell their keys apart
and by which values compare.  The entries of a map and the elements of a set have no
order there, functions stand for themselves, and a collection met again inside itself
is keyed by its place.
-/

mutual

/-- The structure of a value. -/
inductive Key where
  | int (value : Int)
  | float (value : Float) (occurrence : Nat)
  | str (value : Text)
  | char (value : CodePoint)
  | bool (value : Bool)
  | closure (index : Nat)
  | builtin (function : Builtin)
  | array (items : List Key)
  | map (entries : List KeyEntry)
  | set (elements : List Key)
  | again (reference : Reference)
deriving Repr

/-- The structure of a map entry. -/
inductive KeyEntry where
  | pair (key value : Key)
deriving Repr

end

/-- Whether two floats are the same: equal as numbers, or one result that is not a
number. -/
def sameFloat (left : Float) (leftOccurrence : Nat) (right : Float) (rightOccurrence : Nat) :
    Bool :=
  left == right || (left.isNaN && right.isNaN && leftOccurrence == rightOccurrence)

mutual

/-- Whether two keys are the same. -/
def Key.same : Key → Key → Bool
  | .int left, .int right => left == right
  | .float left occurrence, .float right occurrence' =>
      sameFloat left occurrence right occurrence'
  | .str left, .str right => left == right
  | .char left, .char right => left == right
  | .bool left, .bool right => left == right
  | .closure left, .closure right => left == right
  | .builtin left, .builtin right => left == right
  | .array lefts, .array rights => Key.sameAll lefts rights
  | .map lefts, .map rights =>
      KeyEntry.within lefts rights && rights.all fun right => KeyEntry.occurs right lefts
  | .set lefts, .set rights =>
      Key.within lefts rights && rights.all fun right => Key.occurs right lefts
  | .again left, .again right => left == right
  | _, _ => false
termination_by structural left => left

/-- Whether two lists of keys are the same, one by one. -/
def Key.sameAll : List Key → List Key → Bool
  | [], [] => true
  | left :: lefts, right :: rights => left.same right && Key.sameAll lefts rights
  | _, _ => false
termination_by structural lefts => lefts

/-- Whether every key of the first list occurs in the second. -/
def Key.within : List Key → List Key → Bool
  | [], _ => true
  | left :: lefts, rights => rights.any (fun right => left.same right) && Key.within lefts rights
termination_by structural lefts => lefts

/-- Whether a key occurs in a list. -/
def Key.occurs (right : Key) : List Key → Bool
  | [] => false
  | left :: lefts => left.same right || Key.occurs right lefts
termination_by structural lefts => lefts

/-- Whether two map entries are the same. -/
def KeyEntry.same : KeyEntry → KeyEntry → Bool
  | .pair key value, .pair key' value' => key.same key' && value.same value'
termination_by structural left => left

/-- Whether every map entry of the first list occurs in the second. -/
def KeyEntry.within : List KeyEntry → List KeyEntry → Bool
  | [], _ => true
  | left :: lefts, rights =>
      rights.any (fun right => left.same right) && KeyEntry.within lefts rights
termination_by structural lefts => lefts

/-- Whether a map entry occurs in a list. -/
def KeyEntry.occurs (right : KeyEntry) : List KeyEntry → Bool
  | [] => false
  | left :: lefts => left.same right || KeyEntry.occurs right lefts
termination_by structural lefts => lefts

end

end Offside
