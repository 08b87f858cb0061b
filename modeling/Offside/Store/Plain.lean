import Offside.Number
import Offside.Store.Identity

namespace Offside

/-!
# Plain data

A value as data that no longer refers to the store.  An array becomes a list, a map a
table and a set a group.  Keys have to be fixed: an array becomes a tuple there, and a
map or a set becomes its structure.  Numbers and truth values that are equal as numbers
are one key, and a text of one character is the same key as the character.
-/

/-- Plain data. -/
inductive Plain where
  | int (value : Int)
  | float (value : Float) (occurrence : Nat)
  | text (value : Text)
  | bool (value : Bool)
  | list (items : List Plain)
  | tuple (items : List Plain)
  | table (entries : List (Plain × Plain))
  | group (elements : List Plain)
  | fixedGroup (elements : List Plain)
  | kind (kind : Kind)
  | closure (index : Nat)
  | builtin (function : Builtin)
  | place (reference : Reference)

/-- Plain data that cannot be a key, by what it is. -/
inductive Unfixed where
  | list
  | table
  | group
  | closure
  | builtin
deriving Repr, DecidableEq

namespace Unfixed

/-- The wording of a refused key. -/
def message (unfixed : Unfixed) : Text :=
  let name :=
    match unfixed with
    | .list => "list"
    | .table => "dict"
    | .group => "set"
    | .closure => "Closure"
    | .builtin => "BuiltinFunction"
  "unhashable type: '" ++ Text.ofString name ++ "'"

end Unfixed

namespace Plain

mutual

/-- What prevents data from being a key. -/
def unfixed? : Plain → Option Unfixed
  | .list _ => some .list
  | .table _ => some .table
  | .group _ => some .group
  | .closure _ => some .closure
  | .builtin _ => some .builtin
  | .tuple items => firstUnfixed? items
  | _ => none

/-- What prevents the first of some data that cannot be a key from being one. -/
def firstUnfixed? : List Plain → Option Unfixed
  | [] => none
  | item :: items => item.unfixed? <|> firstUnfixed? items

end

/-- Data as a number, where a truth value is zero or one. -/
def number? : Plain → Option Value
  | .int value => some (.int value)
  | .float value occurrence => some (.float value occurrence)
  | .bool value => some (.int (if value then 1 else 0))
  | _ => none

/-- Whether two numbers are one key. -/
def sameNumber (left right : Value) : Bool :=
  left == right || left.order? right == some (some .eq)

mutual

/-- Whether two data are one key. -/
def same : Plain → Plain → Bool
  | .text left, .text right => left == right
  | .kind left, .kind right => left == right
  | .place left, .place right => left == right
  | .closure left, .closure right => left == right
  | .builtin left, .builtin right => left == right
  | .tuple lefts, .tuple rights => sameAll lefts rights
  | .fixedGroup lefts, .fixedGroup rights =>
      within lefts rights && rights.all fun right => occurs right lefts
  | left, right =>
      match left.number?, right.number? with
      | some first, some second => sameNumber first second
      | _, _ => false
termination_by structural left => left

/-- Whether data are one key each, one by one. -/
def sameAll : List Plain → List Plain → Bool
  | [], [] => true
  | left :: lefts, right :: rights => left.same right && sameAll lefts rights
  | _, _ => false
termination_by structural lefts => lefts

/-- Whether all data of the first list occur in the second. -/
def within : List Plain → List Plain → Bool
  | [], _ => true
  | left :: lefts, rights => rights.any (fun right => left.same right) && within lefts rights
termination_by structural lefts => lefts

/-- Whether a datum occurs in a list. -/
def occurs (right : Plain) : List Plain → Bool
  | [] => false
  | left :: lefts => left.same right || occurs right lefts
termination_by structural lefts => lefts

end

/-- A table with a value for a key: the first of equal keys stays, with the last
value. -/
def enter (key value : Plain) : List (Plain × Plain) → List (Plain × Plain)
  | [] => [(key, value)]
  | (known, old) :: rest =>
      if known.same key then (known, value) :: rest else (known, old) :: enter key value rest

/-- A group with one more element, unless it is there. -/
def adjoin (element : Plain) (elements : List Plain) : List Plain :=
  if elements.any (·.same element) then elements else elements ++ [element]

/-- A key, which has to be fixed. -/
def checked (key : Plain) : Except Unfixed Plain :=
  match key.unfixed? with
  | some unfixed => .error unfixed
  | none => .ok key

end Plain

mutual

/-- The structure of a value as plain data, under its kind. -/
def Key.plain : Key → Plain
  | .int value => .tuple [.kind .int, .int value]
  | .float value occurrence => .tuple [.kind .float, .float value occurrence]
  | .str value => .tuple [.kind .str, .text value]
  | .char value => .tuple [.kind .char, .text [value]]
  | .bool value => .tuple [.kind .bool, .bool value]
  | .closure index => .tuple [.kind .closure, .closure index]
  | .builtin function => .tuple [.kind .builtin, .builtin function]
  | .array items => .tuple [.kind .array, .tuple (Key.plainAll items)]
  | .map entries => .tuple [.kind .map, .fixedGroup (KeyEntry.plainAll entries)]
  | .set elements => .tuple [.kind .set, .fixedGroup (Key.plainAll elements)]
  | .again reference => .tuple [.kind reference.kind, .text "...", .place reference]

/-- The structures of values as plain data. -/
def Key.plainAll : List Key → List Plain
  | [] => []
  | key :: keys => key.plain :: Key.plainAll keys

/-- The structure of a map entry as plain data. -/
def KeyEntry.plain : KeyEntry → Plain
  | .pair key value => .tuple [key.plain, value.plain]

/-- The structures of map entries as plain data. -/
def KeyEntry.plainAll : List KeyEntry → List Plain
  | [] => []
  | entry :: entries => entry.plain :: KeyEntry.plainAll entries

end

namespace Store

/-- The key of a value in plain data, given the value as plain data. -/
def plainKey (store : Store) (value : Value) : Plain → Plain
  | .list items => .tuple items
  | .table _ | .group _ => (store.key value).plain
  | other => other

/-- A value as plain data; collections nest at most `room` deep. -/
def plainWithin (store : Store) : (room : Nat) → Value → Except Unfixed Plain
  | _, .int value => .ok (.int value)
  | _, .float value occurrence => .ok (.float value occurrence)
  | _, .str value => .ok (.text value)
  | _, .char value => .ok (.text [value])
  | _, .bool value => .ok (.bool value)
  | _, .closure index => .ok (.closure index)
  | _, .builtin function => .ok (.builtin function)
  | 0, .collection reference => .ok (.place reference)
  | room + 1, .collection (.array index) => do
      return .list (← (store.items index).mapM (store.plainWithin room))
  | room + 1, .collection (.map index) => do
      let entries ← (store.entries index).foldlM (fun known entry => do
        let key := store.plainKey entry.name (← store.plainWithin room entry.name)
        let value ← store.plainWithin room entry.value
        return Plain.enter (← key.checked) value known) []
      return .table entries
  | room + 1, .collection (.set index) => do
      let elements ← (store.elements index).foldlM (fun known entry => do
        let key := store.plainKey entry.element (← store.plainWithin room entry.element)
        return Plain.adjoin (← key.checked) known) []
      return .group elements

/-- A value as plain data. -/
def plain (store : Store) (value : Value) : Except Unfixed Plain :=
  store.plainWithin store.collectionCount value

end Store

end Offside
