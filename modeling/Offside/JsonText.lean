import Offside.Text.CodePoint

namespace Offside

/-!
# JSON texts

What the command line writes as JSON.  The text is ASCII: every other code point is
escaped by its UTF-16 units, so a lone surrogate is written as it stands.
-/

/-- A JSON value; the members of an object keep their order. -/
inductive JsonText where
  | null
  | bool (value : Bool)
  | int (value : Int)
  | text (value : Text)
  | list (items : List JsonText)
  | object (members : List (String × JsonText))

namespace JsonText

/-- A UTF-16 unit in four hexadecimal digits. -/
def unitEscape (number : Nat) : Text :=
  let hex := fun (digit : Nat) => CodePoint.scalar (Nat.digitChar (digit % 16))
  [.scalar '\\', .scalar 'u', hex (number / 4096), hex (number / 256), hex (number / 16),
    hex number]

/-- One code point inside a JSON string. -/
def escaped (code : CodePoint) : Text :=
  match code with
  | .scalar '"' => "\\\""
  | .scalar '\\' => "\\\\"
  | .scalar '\n' => "\\n"
  | .scalar '\r' => "\\r"
  | .scalar '\t' => "\\t"
  | .scalar '\x08' => "\\b"
  | .scalar '\x0c' => "\\f"
  | other =>
      let number := other.toNat
      if 0x20 ≤ number && number ≤ 0x7E then [other]
      else if number < 0x10000 then unitEscape number
      else
        let offset := number - 0x10000
        unitEscape (0xD800 + offset / 0x400) ++ unitEscape (0xDC00 + offset % 0x400)

/-- A JSON string. -/
def stringText (value : Text) : Text :=
  [.scalar '"'] ++ value.flatMap escaped ++ [.scalar '"']

mutual

/-- A JSON value on one line. -/
def line : JsonText → Text
  | .null => "null"
  | .bool value => if value then "true" else "false"
  | .int value => Text.ofInt value
  | .text value => stringText value
  | .list items => "[" ++ Text.join ", " (itemLines items) ++ "]"
  | .object members => "\x7b" ++ Text.join ", " (memberLines members) ++ "\x7d"

/-- The items of a list, each on one line. -/
def itemLines : List JsonText → List Text
  | [] => []
  | item :: items => item.line :: itemLines items

/-- The members of an object, each on one line. -/
def memberLines : List (String × JsonText) → List Text
  | [] => []
  | (name, value) :: members =>
      (stringText (Text.ofString name) ++ ": " ++ value.line) :: memberLines members

end

/-- The end of a line, and the blanks that open the next one. -/
def newline (depth : Nat) : Text :=
  .scalar '\n' :: List.replicate (2 * depth) (.scalar ' ')

/-- Parts between brackets, each on lines of its own; nothing between them when there
are none. -/
def enclosed (depth : Nat) (opening closing : Text) (parts : List Text) : Text :=
  match parts with
  | [] => opening ++ closing
  | _ =>
      opening ++ newline (depth + 1) ++ Text.join ("," ++ newline (depth + 1)) parts ++
        newline depth ++ closing

mutual

/-- A JSON value on as many lines as it has parts, at a depth of nesting. -/
def page (depth : Nat) : JsonText → Text
  | .null => "null"
  | .bool value => if value then "true" else "false"
  | .int value => Text.ofInt value
  | .text value => stringText value
  | .list items => enclosed depth "[" "]" (itemPages (depth + 1) items)
  | .object members => enclosed depth "\x7b" "\x7d" (memberPages (depth + 1) members)

/-- The items of a list. -/
def itemPages (depth : Nat) : List JsonText → List Text
  | [] => []
  | item :: items => item.page depth :: itemPages depth items

/-- The members of an object. -/
def memberPages (depth : Nat) : List (String × JsonText) → List Text
  | [] => []
  | (name, value) :: members =>
      (stringText (Text.ofString name) ++ ": " ++ value.page depth) ::
        memberPages depth members

end

end JsonText

end Offside
