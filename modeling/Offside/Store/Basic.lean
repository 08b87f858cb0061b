import Offside.Syntax.Tree
import Offside.Value.Key

namespace Offside

/-!
# The store

The store holds everything that outlives an expression: the frames of bindings, the
collections and the functions.  Nothing is ever removed from it, so a place stays
valid once it is given out.
-/

/-- A binding: its value, unless its definition is still under way, and whether it may
be assigned. -/
structure Slot where
  value : Option Value
  mutable : Bool
deriving Repr, DecidableEq

/-- One frame of bindings, in the order of their definition. -/
structure Frame where
  label : Text
  slots : List (Text × Slot)
deriving Repr, DecidableEq

/-- The frames in which a name is looked up, innermost first. -/
abbrev Scope := List Nat

/-- A function with the scope in which it was made. -/
structure Closure where
  parameters : List Text
  body : Expr
  scope : Scope

/-- An entry of a map, under the key that its name had when it was entered. -/
structure MapEntry where
  key : Key
  name : Value
  value : Value

/-- An element of a set, under the key that it had when it was entered. -/
structure SetEntry where
  key : Key
  element : Value

/-- All frames, collections and functions, and how many results were not numbers. -/
structure Store where
  frames : Array Frame
  arrays : Array (List Value)
  maps : Array (List MapEntry)
  sets : Array (List SetEntry)
  closures : Array Closure
  occurrences : Nat

namespace Store

/-- The store with nothing in it. -/
def empty : Store :=
  ⟨#[], #[], #[], #[], #[], 0⟩

/-- The elements of an array. -/
def items (store : Store) (index : Nat) : List Value :=
  store.arrays[index]?.getD []

/-- The entries of a map. -/
def entries (store : Store) (index : Nat) : List MapEntry :=
  store.maps[index]?.getD []

/-- The elements of a set. -/
def elements (store : Store) (index : Nat) : List SetEntry :=
  store.sets[index]?.getD []

/-- How many collections there are. -/
def collectionCount (store : Store) : Nat :=
  store.arrays.size + store.maps.size + store.sets.size

/-- Adds an array. -/
def addArray (store : Store) (items : List Value) : Value × Store :=
  (.collection (.array store.arrays.size), { store with arrays := store.arrays.push items })

/-- Adds a map. -/
def addMap (store : Store) (entries : List MapEntry) : Value × Store :=
  (.collection (.map store.maps.size), { store with maps := store.maps.push entries })

/-- Adds a set. -/
def addSet (store : Store) (elements : List SetEntry) : Value × Store :=
  (.collection (.set store.sets.size), { store with sets := store.sets.push elements })

/-- Adds a function. -/
def addClosure (store : Store) (closure : Closure) : Value × Store :=
  (.closure store.closures.size, { store with closures := store.closures.push closure })

/-- The value of a float; a result that is not a number gets an occurrence of its
own. -/
def addFloat (store : Store) (number : Float) : Value × Store :=
  if number.isNaN then
    (.float number store.occurrences, { store with occurrences := store.occurrences + 1 })
  else (.float number 0, store)

/-- Replaces the elements of an array. -/
def setItems (store : Store) (index : Nat) (items : List Value) : Store :=
  { store with arrays := store.arrays.setIfInBounds index items }

/-- Replaces the entries of a map. -/
def setEntries (store : Store) (index : Nat) (entries : List MapEntry) : Store :=
  { store with maps := store.maps.setIfInBounds index entries }

/-- Replaces the elements of a set. -/
def setElements (store : Store) (index : Nat) (elements : List SetEntry) : Store :=
  { store with sets := store.sets.setIfInBounds index elements }

/-- A walk through values.  All of its parts share the collections that it is inside of. -/
abbrev Walk := StateM (List Reference)

/-- Walks through a collection, unless the walk is inside of it already. -/
def Walk.enter {α : Type} (reference : Reference) (again : α) (inside : Walk α) : Walk α := do
  if reference ∈ (← get) then return again
  modify (reference :: ·)
  let result ← inside
  modify (·.erase reference)
  return result

/-- The result of a walk that starts outside of all collections. -/
def Walk.result {α : Type} (walk : Walk α) : α :=
  (walk.run []).run.1

end Store

end Offside
