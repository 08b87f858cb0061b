import Offside.Decimal.FloatText
import Offside.Text.Quoted

namespace Offside

/-!
# Settings data

What a settings file or a caller can give as the value of a setting.
-/

/-- A value of a setting.  One of another kind than those named here is given by its two
spellings, and by whether it counts as nothing. -/
inductive Datum where
  | null
  | bool (value : Bool)
  | int (value : Int)
  | float (value : Float)
  | text (value : Text)
  | list (items : List Datum)
  | mapping (entries : List (Datum × Datum))
  | other (dumped shown : Text) (isVoid : Bool)

namespace Datum

mutual

/-- A datum as messages show it, with text in quotes. -/
def dumped : Datum → Text
  | .null => "None"
  | .bool value => if value then "True" else "False"
  | .int value => Text.ofInt value
  | .float value => Decimal.floatText value
  | .text value => Text.dumped value
  | .list items => "[" ++ Text.join ", " (dumpedAll items) ++ "]"
  | .mapping entries => "\x7b" ++ Text.join ", " (dumpedEntries entries) ++ "\x7d"
  | .other dumped _ _ => dumped

/-- Data as messages show them. -/
def dumpedAll : List Datum → List Text
  | [] => []
  | item :: items => item.dumped :: dumpedAll items

/-- The entries of a mapping as messages show them. -/
def dumpedEntries : List (Datum × Datum) → List Text
  | [] => []
  | (key, value) :: entries => (key.dumped ++ ": " ++ value.dumped) :: dumpedEntries entries

end

/-- A datum on its own, with text bare. -/
def shown : Datum → Text
  | .text value => value
  | .other _ shown _ => shown
  | datum => datum.dumped

/-- Whether a datum counts as nothing. -/
def isVoid : Datum → Bool
  | .null => true
  | .bool value => !value
  | .int value => value == 0
  | .float value => value == 0.0
  | .text value => value.isEmpty
  | .list items => items.isEmpty
  | .mapping entries => entries.isEmpty
  | .other _ _ isVoid => isVoid

/-- The file name that a datum gives to reports: a text is a name, even an empty one, and
nothing else that counts as nothing is. -/
def fileName? : Datum → Option Text
  | .text name => some name
  | datum => if datum.isVoid then none else some datum.shown

end Datum

end Offside
