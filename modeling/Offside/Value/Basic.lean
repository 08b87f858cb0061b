import Offside.Text.CodePoint

namespace Offside

/-!
# Values

Scalars are values in themselves.  Collections and functions live in the store and
are referred to by their places there, so that two references to one collection
show each other's changes.
-/

/-- The kind of a value. -/
inductive Kind where
  | int
  | float
  | str
  | char
  | bool
  | array
  | map
  | set
  | closure
  | builtin
deriving Repr, DecidableEq

namespace Kind

/-- The name of a kind in messages. -/
def name : Kind → String
  | .int => "int"
  | .float => "float"
  | .str => "str"
  | .char => "char"
  | .bool => "bool"
  | .array => "array"
  | .map => "map"
  | .set => "set"
  | .closure => "closure"
  | .builtin => "builtin"

/-- The tag of a kind in dumps. -/
def tag : Kind → String
  | .int => "INT"
  | .float => "FLOAT"
  | .str => "STR"
  | .char => "CHAR"
  | .bool => "BOOL"
  | .array => "ARRAY"
  | .map => "MAP"
  | .set => "SET"
  | .closure => "CLOSURE"
  | .builtin => "BUILTIN"

/-- Whether values of a kind are numbers. -/
def isNumeric : Kind → Bool
  | .int | .float => true
  | _ => false

/-- Whether values of a kind can be called. -/
def isCallable : Kind → Bool
  | .closure | .builtin => true
  | _ => false

end Kind

/-- The functions that are always defined. -/
inductive Builtin where
  | len
  | get
  | set
  | push
  | insert
  | contains
  | str
deriving Repr, DecidableEq

namespace Builtin

/-- The name that a builtin is bound to. -/
def name : Builtin → String
  | .len => "len"
  | .get => "get"
  | .set => "set"
  | .push => "push"
  | .insert => "insert"
  | .contains => "contains"
  | .str => "str"

/-- How many arguments a builtin takes. -/
def arity : Builtin → Nat
  | .len | .str => 1
  | .get | .push | .insert | .contains => 2
  | .set => 3

/-- What a builtin does, in one sentence. -/
def summary : Builtin → String
  | .len => "Length of a str, array, map or set."
  | .get => "Element of an array or str by index, or map value by key."
  | .set => "Replace an array element or add a map entry, in place."
  | .push => "Append to an array in place."
  | .insert => "Add an element to a set in place."
  | .contains => "Membership test for arrays, maps, sets and strs."
  | .str => "Display form of any value."

/-- Every builtin, in the order of its binding. -/
def all : List Builtin :=
  [.len, .get, .set, .push, .insert, .contains, .str]

/-- The builtin with a given name. -/
def ofName? (name : String) : Option Builtin :=
  all.find? (·.name == name)

end Builtin

/-- The place of a collection in the store. -/
inductive Reference where
  | array (index : Nat)
  | map (index : Nat)
  | set (index : Nat)
deriving Repr, DecidableEq

namespace Reference

/-- The kind of the collection at a place. -/
def kind : Reference → Kind
  | .array _ => .array
  | .map _ => .map
  | .set _ => .set

end Reference

/-- A value.  The occurrence of a float tells results that are not numbers apart;
it is zero for every number. -/
inductive Value where
  | int (value : Int)
  | float (value : Float) (occurrence : Nat)
  | str (value : Text)
  | char (value : CodePoint)
  | bool (value : Bool)
  | collection (reference : Reference)
  | closure (index : Nat)
  | builtin (function : Builtin)
deriving Repr, DecidableEq

namespace Value

/-- The kind of a value. -/
def kind : Value → Kind
  | .int _ => .int
  | .float _ _ => .float
  | .str _ => .str
  | .char _ => .char
  | .bool _ => .bool
  | .collection reference => reference.kind
  | .closure _ => .closure
  | .builtin _ => .builtin

end Value

end Offside
