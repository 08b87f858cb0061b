import Offside.Decimal.FloatText
import Offside.Store.Basic
import Offside.Text.Quoted

namespace Offside

/-!
# Display of values

A value is shown the way it would be written in a source.  Text is bare on its own and
quoted inside a collection.  A collection that is on the path to itself is shown as
`[...]` or `{...}`; elsewhere it is shown in full, also when it is shared.
-/

namespace Reference

/-- How a collection is shown inside itself. -/
def elided : Reference → Text
  | .array _ => "[...]"
  | .map _ | .set _ => "\x7b...\x7d"

end Reference

namespace Store

/-- The texts between brackets, with commas. -/
def bracketed (opening closing : Char) (texts : List Text) : Text :=
  .scalar opening :: (Text.join [.scalar ',', .scalar ' '] texts ++ [.scalar closing])

/-- A function as it is shown: by its parameters only. -/
def closureText (store : Store) (index : Nat) : Text :=
  match (store.closures[index]?.map (·.parameters)).getD [] with
  | [] => "<fun>"
  | parameters => "<fun " ++ Text.join [.scalar ' '] parameters ++ ">"

/-- The display of a value that is not looked into. -/
def scalarText (store : Store) (nested : Bool) : Value → Text
  | .int value => Text.ofInt value
  | .float value _ => Decimal.floatText value
  | .str value => if nested then Text.quoted (.scalar '"') value else value
  | .char value => if nested then Text.quoted (.scalar '\'') [value] else [value]
  | .bool value => if value then "true" else "false"
  | .closure index => store.closureText index
  | .builtin function => "<builtin " ++ Text.ofString function.name ++ ">"
  | .collection reference => reference.elided

/-- The display of a value in a walk.  The walk can be inside of all collections at once, but
of no more, so `room` counts how many it can still enter. -/
def displayWalk (store : Store) : (room : Nat) → (nested : Bool) → Value → Walk Text
  | room + 1, _, .collection reference =>
      Walk.enter reference reference.elided <|
        match reference with
        | .array index => do
            let texts ← (store.items index).mapM (store.displayWalk room true)
            return bracketed '[' ']' texts
        | .map index => do
            let texts ← (store.entries index).mapM fun entry => do
              let name ← store.displayWalk room true entry.name
              let value ← store.displayWalk room true entry.value
              return name ++ ": " ++ value
            return bracketed '\x7b' '\x7d' texts
        | .set index => do
            let texts ← (store.elements index).mapM fun entry =>
              store.displayWalk room true entry.element
            return bracketed '\x7b' '\x7d' texts
  | _, nested, value => return store.scalarText nested value

/-- The display of a value on its own. -/
def display (store : Store) (value : Value) : Text :=
  (store.displayWalk store.collectionCount false value).result

/-- The display of a value as a part of something. -/
def displayNested (store : Store) (value : Value) : Text :=
  (store.displayWalk store.collectionCount true value).result

end Store

end Offside
