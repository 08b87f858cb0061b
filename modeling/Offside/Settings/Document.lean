import Offside.Settings.Datum
import Offside.Text.CodePoint

namespace Offside

/-!
# Settings documents

A reader for a part of the language of documents, as settings use it; it refuses nothing.
A document is a mapping of one entry a line, a list of one item a line, or a single
value.  A value is a scalar, or a list or a mapping between brackets.  A comment starts
with a number sign after a blank.
-/

namespace Document

/-- Whether a code point separates words. -/
def isBlank (code : CodePoint) : Bool :=
  code == .scalar ' ' || code == .scalar '\t'

/-- The text without the blanks around it. -/
def trim (text : Text) : Text :=
  ((text.dropWhile isBlank).reverse.dropWhile isBlank).reverse

/-- Whether a code point opens a quoted scalar, by the code point before it. -/
def opensQuote (before : Option CodePoint) (code : CodePoint) : Bool :=
  (code == .scalar '\'' || code == .scalar '"') &&
    match before with
    | none => true
    | some other =>
        isBlank other || other == .scalar '[' || other == .scalar '\x7b' ||
          other == .scalar ','

/-- Whether a code point starts a comment, by the code point before it. -/
def opensComment (before : Option CodePoint) (code : CodePoint) : Bool :=
  code == .scalar '#' &&
    match before with
    | none => true
    | some other => isBlank other

/-- The line without its comment. -/
def withoutComment (quote before : Option CodePoint) : Text → Text
  | [] => []
  | code :: rest =>
      match quote with
      | some opened =>
          code :: withoutComment (if code = opened then none else quote) (some code) rest
      | none =>
          if opensComment before code then []
          else
            code :: withoutComment (if opensQuote before code then some code else none)
              (some code) rest

/-- The spellings of the value that is no value. -/
def nullWords : List Text :=
  ["", "~", "null", "Null", "NULL"]

/-- The spellings of true. -/
def trueWords : List Text :=
  ["true", "True", "TRUE", "yes", "Yes", "YES", "on", "On", "ON"]

/-- The spellings of false. -/
def falseWords : List Text :=
  ["false", "False", "FALSE", "no", "No", "NO", "off", "Off", "OFF"]

/-- The number that digits of a base denote; underscores between them do not count. -/
def digitsIn? (base : Nat) (text : Text) : Option Nat :=
  let digits := text.filter (· != .scalar '_')
  if digits.isEmpty then none
  else
    digits.foldl (fun number digit => do
      let value ← digit.hexValue?
      if value < base then some (base * (← number) + value) else none) (some 0)

/-- The natural number that a scalar denotes: a leading zero marks another base than
ten. -/
def natural? : Text → Option Nat
  | [.scalar '0'] => some 0
  | .scalar '0' :: .scalar 'b' :: digits => digitsIn? 2 digits
  | .scalar '0' :: .scalar 'x' :: digits => digitsIn? 16 digits
  | .scalar '0' :: digits => digitsIn? 8 digits
  | .scalar '_' :: _ => none
  | digits => digitsIn? 10 digits

/-- A scalar without its sign, and whether the sign is a minus. -/
def unsigned : Text → Bool × Text
  | .scalar '-' :: rest => (true, rest)
  | .scalar '+' :: rest => (false, rest)
  | text => (false, text)

/-- The exponent after the digits of a float; its sign has to be written. -/
def exponent? : Text → Option Int
  | [] => some 0
  | mark :: sign :: digits =>
      if (mark == .scalar 'e' || mark == .scalar 'E') && !digits.isEmpty &&
          digits.all CodePoint.isDigit then
        match sign with
        | .scalar '+' => some (Text.digitsValue digits)
        | .scalar '-' => some (-(Text.digitsValue digits : Int))
        | _ => none
      else none
  | _ => none

/-- The float that digits, digits after the point and an exponent denote. -/
def scaled (digits fraction : Text) (exponent : Int) : Float :=
  let shift := exponent - fraction.length
  Float.ofScientific (Text.digitsValue (digits ++ fraction)) (decide (shift < 0)) shift.natAbs

/-- The spellings of the infinite float. -/
def infiniteWords : List Text :=
  [".inf", ".Inf", ".INF"]

/-- The spellings of the float that is not a number. -/
def undefinedWords : List Text :=
  [".nan", ".NaN", ".NAN"]

/-- The finite float that a scalar without sign denotes: it has a point. -/
def decimal? (text : Text) : Option Float :=
  let isPart := fun (code : CodePoint) => code.isDigit || code == .scalar '_'
  let isFigure := fun (code : CodePoint) => code != .scalar '_'
  let digits := text.takeWhile isPart
  match text.dropWhile isPart with
  | .scalar '.' :: rest =>
      let fraction := rest.takeWhile isPart
      match digits.head? <|> fraction.head?, exponent? (rest.dropWhile isPart) with
      | some first, some exponent =>
          if first.isDigit then
            some (scaled (digits.filter isFigure) (fraction.filter isFigure) exponent)
          else none
      | _, _ => none
  | _ => none

/-- The float that a scalar denotes; a sign stands before a digit or the infinite float
only. -/
def floating? (text : Text) : Option Float :=
  let (negative, magnitude) := unsigned text
  if undefinedWords.contains text then some (0.0 / 0.0)
  else if infiniteWords.contains magnitude then some ((if negative then -1.0 else 1.0) / 0.0)
  else if magnitude != text && magnitude.head? == some (.scalar '.') then none
  else (decimal? magnitude).map fun number => if negative then -number else number

/-- The value of a scalar without quotes. -/
def plain (text : Text) : Datum :=
  if nullWords.contains text then .null
  else if trueWords.contains text then .bool true
  else if falseWords.contains text then .bool false
  else
    let (negative, digits) := unsigned text
    match natural? digits with
    | some number => .int (if negative then -(number : Int) else number)
    | none =>
        match floating? text with
        | some number => .float number
        | none => .text text

/-- The text up to a closing single quote; two single quotes stand for one. -/
def singleQuoted : Text → Text
  | [] => []
  | .scalar '\'' :: .scalar '\'' :: rest => .scalar '\'' :: singleQuoted rest
  | .scalar '\'' :: _ => []
  | code :: rest => code :: singleQuoted rest

/-- The code point that an escape in double quotes denotes. -/
def unescaped : CodePoint → CodePoint
  | .scalar 'n' => .scalar '\n'
  | .scalar 't' => .scalar '\t'
  | .scalar 'r' => .scalar '\r'
  | .scalar '0' => .scalar '\x00'
  | .scalar 'a' => .scalar '\x07'
  | .scalar 'b' => .scalar '\x08'
  | .scalar 'v' => .scalar '\x0b'
  | .scalar 'f' => .scalar '\x0c'
  | .scalar 'e' => .scalar '\x1b'
  | other => other

/-- The text up to a closing double quote, with its escapes resolved. -/
def doubleQuoted : Text → Text
  | [] => []
  | .scalar '"' :: _ => []
  | .scalar '\\' :: .scalar 'x' :: first :: second :: rest =>
      CodePoint.ofNat ((digitsIn? 16 [first, second]).getD 0) :: doubleQuoted rest
  | .scalar '\\' :: .scalar 'u' :: first :: second :: third :: fourth :: rest =>
      CodePoint.ofNat ((digitsIn? 16 [first, second, third, fourth]).getD 0) ::
        doubleQuoted rest
  | .scalar '\\' :: code :: rest => unescaped code :: doubleQuoted rest
  | code :: rest => code :: doubleQuoted rest

/-- The depth of brackets after a code point. -/
def depthAfter (depth : Nat) (code : CodePoint) : Nat :=
  if code == .scalar '[' || code == .scalar '\x7b' then depth + 1
  else if code == .scalar ']' || code == .scalar '\x7d' then depth - 1
  else depth

/-- The parts of a text between the commas outside of brackets and quotes. -/
def pieces (depth : Nat) (quote before : Option CodePoint) : Text → List Text
  | [] => [[]]
  | code :: rest =>
      let extend := fun (parts : List Text) =>
        match parts with
        | [] => [[code]]
        | part :: later => (code :: part) :: later
      match quote with
      | some opened =>
          extend (pieces depth (if code = opened then none else quote) (some code) rest)
      | none =>
          if depth = 0 && code == .scalar ',' then [] :: pieces depth none none rest
          else
            extend (pieces (depthAfter depth code)
              (if opensQuote before code then some code else none) (some code) rest)

/-- The parts between commas that hold something. -/
def items (text : Text) : List Text :=
  ((pieces 0 none none text).map trim).filter (!·.isEmpty)

/-- A key and what follows its colon, which stands before a blank or the end. -/
def keyed? (quote before : Option CodePoint) : Text → Option (Text × Text)
  | [] => none
  | code :: rest =>
      let extend := fun (parts : Text × Text) => (code :: parts.1, parts.2)
      match quote with
      | some opened =>
          (keyed? (if code = opened then none else quote) (some code) rest).map extend
      | none =>
          if code == .scalar ':' && (rest.head?.map isBlank).getD true then some ([], rest)
          else
            (keyed? (if opensQuote before code then some code else none) (some code) rest).map
              extend

/-- A mapping with a value for a key; the last value of a key holds. -/
def enter (entries : List (Datum × Datum)) (key value : Datum) : List (Datum × Datum) :=
  match entries with
  | [] => [(key, value)]
  | (known, old) :: rest =>
      if known.dumped = key.dumped then (known, value) :: rest
      else (known, old) :: enter rest key value

/-- A mapping of entries; one without a colon is a key without a value. -/
def mapping (value : Text → Datum) (entries : List Text) : Datum :=
  .mapping (entries.foldl (fun known entry =>
    let (key, rest) := (keyed? none none entry).getD (entry, [])
    enter known (value key) (value rest)) [])

/-- The value of a text; brackets nest at most `room` deep. -/
def value : (room : Nat) → Text → Datum
  | 0, _ => .null
  | room + 1, text =>
      match trim text with
      | .scalar '[' :: rest => .list ((items rest.dropLast).map (value room))
      | .scalar '\x7b' :: rest => mapping (value room) (items rest.dropLast)
      | .scalar '\'' :: rest => .text (singleQuoted rest)
      | .scalar '"' :: rest => .text (doubleQuoted rest)
      | other => plain other

/-- What follows the dash of a list item. -/
def item? : Text → Option Text
  | [.scalar '-'] => some []
  | .scalar '-' :: code :: rest => if isBlank code then some rest else none
  | _ => none

/-- The datum of a document. -/
def parse (source : Text) : Datum :=
  let whole := value (source.length + 1)
  let lines :=
    (source.lines.map fun line => trim (withoutComment none none line)).filter (!·.isEmpty)
  match lines with
  | [] => .null
  | first :: _ =>
      if (item? first).isSome then .list (lines.map fun line => whole ((item? line).getD line))
      else if first.head? == some (.scalar '[') || first.head? == some (.scalar '\x7b') then
        whole (Text.join [.scalar ' '] lines)
      else if (keyed? none none first).isSome then mapping whole lines
      else whole (Text.join [.scalar ' '] lines)

end Document

end Offside
