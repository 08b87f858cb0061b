namespace Offside

/-!
# Code points and text

Text is a list of Unicode code points.  A surrogate is a code point of its
own, so two escaped halves are two code points and differ from the astral
character that they would encode together.
-/

/-- A Unicode code point: a scalar value, or the surrogate U+D800 + `low`. -/
inductive CodePoint where
  | scalar (char : Char)
  | surrogate (low : Fin 2048)
deriving Repr, DecidableEq

namespace CodePoint

instance : Coe Char CodePoint :=
  ⟨CodePoint.scalar⟩

instance : Inhabited CodePoint :=
  ⟨.scalar ' '⟩

/-- The number of a code point. -/
def toNat : CodePoint → Nat
  | .scalar char => char.toNat
  | .surrogate low => 0xD800 + low.val

/-- The code point with a given number below 0x110000. -/
def ofNat (number : Nat) : CodePoint :=
  if surrogate : 0xD800 ≤ number ∧ number < 0xE000 then
    .surrogate ⟨number - 0xD800, by omega⟩
  else
    .scalar (Char.ofNat number)

/-- Whether a code point is one of the ten ASCII digits. -/
def isDigit : CodePoint → Bool
  | .scalar char => char.isDigit
  | .surrogate _ => false

/-- The value of an ASCII hexadecimal digit. -/
def hexValue? : CodePoint → Option Nat
  | .scalar char =>
      if '0' ≤ char ∧ char ≤ '9' then some (char.toNat - '0'.toNat)
      else if 'a' ≤ char ∧ char ≤ 'f' then some (char.toNat - 'a'.toNat + 10)
      else if 'A' ≤ char ∧ char ≤ 'F' then some (char.toNat - 'A'.toNat + 10)
      else none
  | .surrogate _ => none

/-- The character shown for a code point; a surrogate has none of its own. -/
def toChar : CodePoint → Char
  | .scalar char => char
  | .surrogate _ => Char.ofNat 0xFFFD

end CodePoint

/-- Text is a list of code points; length, position and order count them. -/
abbrev Text := List CodePoint

namespace Text

/-- The code points of a list of characters. -/
def ofChars (chars : List Char) : Text :=
  chars.map .scalar

/-- The code points of a string. -/
def ofString (string : String) : Text :=
  ofChars string.toList

instance : Coe String Text :=
  ⟨Text.ofString⟩

/-- The string that shows a text. -/
def toString (text : Text) : String :=
  String.ofList (text.map CodePoint.toChar)

/-- The decimal digits of a natural number. -/
def ofNat (number : Nat) : Text :=
  ofChars (Nat.toDigits 10 number)

/-- The decimal digits of an integer, with a minus sign below zero. -/
def ofInt : Int → Text
  | .ofNat number => ofNat number
  | .negSucc number => .scalar '-' :: ofNat (number + 1)

/-- The number that a run of decimal digits denotes. -/
def digitsValue (digits : Text) : Nat :=
  digits.foldl (fun value digit => 10 * value + (digit.toNat - '0'.toNat)) 0

/-- The parts with a separator between each two. -/
def join (separator : Text) : List Text → Text
  | [] => []
  | [part] => part
  | part :: parts => part ++ separator ++ join separator parts

/-- Order by the first code point that differs; a shorter prefix comes first. -/
def compare : Text → Text → Ordering
  | [], [] => .eq
  | [], _ :: _ => .lt
  | _ :: _, [] => .gt
  | left :: lefts, right :: rights =>
      if left.toNat < right.toNat then .lt
      else if right.toNat < left.toNat then .gt
      else compare lefts rights

/-- Whether `part` occurs in `text` as a run of consecutive code points. -/
def hasPart (part : Text) : Text → Bool
  | [] => part.isEmpty
  | head :: tail => part.isPrefixOf (head :: tail) || hasPart part tail

/-- The text padded on the left with blanks to at least `width`. -/
def padLeft (width : Nat) (text : Text) : Text :=
  List.replicate (width - text.length) (.scalar ' ') ++ text

/-!
## Texts in ascending order
-/

/-- Inserts a text into an ascending list of texts. -/
def insertSorted (text : Text) : List Text → List Text
  | [] => [text]
  | other :: others =>
      match Text.compare text other with
      | .gt => other :: insertSorted text others
      | _ => text :: other :: others

/-- The texts in ascending order. -/
def sorted (texts : List Text) : List Text :=
  texts.foldr insertSorted []

end Text

/-!
## Lines of a text

Source excerpts are shown line by line.  A line ends at any of the line
boundaries below; a carriage return and a line feed in a row are one boundary,
and a boundary at the very end starts no further line.
-/

namespace CodePoint

/-- Whether a code point ends a line of an excerpt. -/
def endsLine (code : CodePoint) : Bool :=
  let number := code.toNat
  (0x0A ≤ number && number ≤ 0x0D) || (0x1C ≤ number && number ≤ 0x1E) ||
    number == 0x85 || number == 0x2028 || number == 0x2029

end CodePoint

namespace Text

/-- The lines of a text, without their boundaries. -/
def lines : Text → List Text
  | [] => []
  | .scalar '\r' :: .scalar '\n' :: rest => [] :: lines rest
  | code :: rest =>
      if code.endsLine then [] :: lines rest
      else
        match lines rest with
        | [] => [[code]]
        | line :: later => (code :: line) :: later

/-- The line with a given number, counted from one. -/
def line? (text : Text) (number : Nat) : Option Text :=
  match number with
  | 0 => none
  | index + 1 => text.lines[index]?

end Text

end Offside
