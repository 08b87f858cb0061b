import Offside.Run.Action

namespace Offside

/-!
# The builtin functions

`set`, `push` and `insert` change their collection in place and give it back.  A
builtin that fails changes nothing.
-/

namespace Builtin

/-- The index that a value denotes among `length` elements. -/
def elementIndex (context : String) (length : Nat) : Value → Except RuntimeCause Nat
  | .int index =>
      if 0 ≤ index ∧ index < length then .ok index.toNat
      else .error (.indexRange context index length)
  | other => .error (.indexKind context other.kind)

/-- The element of an array or a string at an index, or the value of a map under a
key. -/
def element (context : String) (store : Store) (collection key : Value) :
    Except RuntimeCause Value :=
  match collection with
  | .collection (.array index) => do
      let items := store.items index
      let place ← elementIndex context items.length key
      return items.getD place (.bool false)
  | .str text => do
      let place ← elementIndex context text.length key
      return .char (text.getD place default)
  | .collection (.map index) =>
      match Store.entryAt? (store.entries index) (store.key key) with
      | some entry => .ok entry.value
      | none => .error (.missingKey context (store.displayNested key))
  | other => .error (.argumentKind context "array, str or map" other.kind)

/-- How many elements a collection or a string has. -/
def length (store : Store) : Value → Except RuntimeCause Nat
  | .str text => .ok text.length
  | .collection (.array index) => .ok (store.items index).length
  | .collection (.map index) => .ok (store.entries index).length
  | .collection (.set index) => .ok (store.elements index).length
  | other => .error (.argumentKind "len" "str, array, map or set" other.kind)

/-- Replaces an element of an array, or enters a value into a map under a key. -/
def replace (store : Store) (collection key value : Value) : Except RuntimeCause Store :=
  match collection with
  | .collection (.array index) => do
      let items := store.items index
      let place ← elementIndex "set" items.length key
      return store.setItems index (items.set place value)
  | .collection (.map index) =>
      let entry : MapEntry := ⟨store.key key, key, value⟩
      .ok (store.setEntries index (Store.enter (store.entries index) entry))
  | other => .error (.argumentKind "set" "array or map" other.kind)

/-- Appends to an array. -/
def append (store : Store) (collection value : Value) : Except RuntimeCause Store :=
  match collection with
  | .collection (.array index) => .ok (store.setItems index (store.items index ++ [value]))
  | other => .error (.argumentKind "push" "array" other.kind)

/-- Adds an element to a set. -/
def adjoin (store : Store) (collection value : Value) : Except RuntimeCause Store :=
  match collection with
  | .collection (.set index) =>
      let entry : SetEntry := ⟨store.key value, value⟩
      .ok (store.setElements index (Store.adjoin (store.elements index) entry))
  | other => .error (.argumentKind "insert" "set" other.kind)

/-- Whether a collection has an element or a key, or a string a part. -/
def has (store : Store) (collection value : Value) : Except RuntimeCause Bool :=
  match collection with
  | .collection (.array index) => .ok ((store.items index).any (store.equal · value))
  | .collection (.map index) =>
      let key := store.key value
      .ok ((store.entries index).any (·.key.same key))
  | .collection (.set index) =>
      let key := store.key value
      .ok ((store.elements index).any (·.key.same key))
  | .str text =>
      match value with
      | .str part => .ok (Text.hasPart part text)
      | .char part => .ok (Text.hasPart [part] text)
      | other => .error (.unsearchable other.kind)
  | other => .error (.argumentKind "contains" "array, map, set or str" other.kind)

/-- A builtin applied to as many arguments as it takes. -/
def apply (store : Store) (function : Builtin) (arguments : List Value) :
    Except RuntimeCause (Value × Store) :=
  match function, arguments with
  | .len, [value] => do return (.int (← length store value), store)
  | .get, [collection, key] => do return (← element "get" store collection key, store)
  | .set, [collection, key, value] => do
      return (collection, ← replace store collection key value)
  | .push, [collection, value] => do return (collection, ← append store collection value)
  | .insert, [collection, value] => do return (collection, ← adjoin store collection value)
  | .contains, [collection, value] => do return (.bool (← has store collection value), store)
  | .str, [value] => .ok (.str (store.display value), store)
  | function, arguments => .error (.arity function.name function.arity arguments.length)

end Builtin

end Offside
