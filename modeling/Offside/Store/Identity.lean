import Offside.Store.Basic

namespace Offside

/-!
# Structure and equality of values

The key of a value is read off the store in a walk through its collections.  A collection
that the walk is inside of is not entered again, so it is never inside of more collections
than there are.
-/

namespace Store

/-- The key of a value that is not looked into. -/
def scalarKey : Value → Key
  | .int value => .int value
  | .float value occurrence => .float value occurrence
  | .str value => .str value
  | .char value => .char value
  | .bool value => .bool value
  | .closure index => .closure index
  | .builtin function => .builtin function
  | .collection reference => .again reference

/-- The key of a value in a walk that can enter `room` more collections. -/
def keyWalk (store : Store) : (room : Nat) → Value → Walk Key
  | room + 1, .collection reference =>
      Walk.enter reference (.again reference) <|
        match reference with
        | .array index => do
            let keys ← (store.items index).mapM (store.keyWalk room)
            return .array keys
        | .map index => do
            let pairs ← (store.entries index).mapM fun entry => do
              let key ← store.keyWalk room entry.value
              return .pair entry.key key
            return .map pairs
        | .set index => return .set ((store.elements index).map (·.key))
  | _, value => return scalarKey value

/-- The key of a value. -/
def key (store : Store) (value : Value) : Key :=
  (store.keyWalk store.collectionCount value).result

/-- Whether two values are equal: one collection, or the same structure. -/
def equal (store : Store) (left right : Value) : Bool :=
  match left, right with
  | .collection first, .collection second =>
      first == second || (store.key left).same (store.key right)
  | _, _ => (store.key left).same (store.key right)

/-- The entry of a map under a key. -/
def entryAt? (entries : List MapEntry) (key : Key) : Option MapEntry :=
  entries.find? (·.key.same key)

/-- The entries of a map with one entered under a key: in the place of the one that was
there, or at the end. -/
def enter (entries : List MapEntry) (entry : MapEntry) : List MapEntry :=
  match entries with
  | [] => [entry]
  | first :: rest =>
      if first.key.same entry.key then ⟨first.key, entry.name, entry.value⟩ :: rest
      else first :: enter rest entry

/-- The elements of a set with one more, unless its key is there already. -/
def adjoin (elements : List SetEntry) (entry : SetEntry) : List SetEntry :=
  if elements.any (·.key.same entry.key) then elements else elements ++ [entry]

end Store

end Offside
