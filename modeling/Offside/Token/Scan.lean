import Offside.Fault
import Offside.Text.Unicode

namespace Offside

/-!
# Scanning one token

`scan` reads the token that starts at the head of a text.  It answers the symbol
and how many code points the token takes, or the cause of a failure and the part
of the text that the failure covers, counted from the start of the token.
-/

namespace CodePoint

/-- Whether a code point can start a word. -/
def startsWord (code : CodePoint) : Bool :=
  code.isLetter || code == .scalar '_'

/-- Whether a code point can continue a word. -/
def continuesWord (code : CodePoint) : Bool :=
  code.isLetter || code.isNumeral || code == .scalar '_'

end CodePoint

/-- A failed scan, covering the code points from `first` up to `last`. -/
structure Misread where
  cause : LexicalCause
  first : Nat
  last : Nat
deriving Repr, DecidableEq

/-- What scanning one token gives. -/
inductive Scanned where
  | token (symbol : Symbol) (size : Nat)
  | misread (misread : Misread)
  | abort (abort : Abort)
deriving Repr, DecidableEq

namespace Scan

/-- The hexadecimal escape `letter` with exactly `width` digits; the sequence that
was read if there are fewer. -/
def hexEscape (letter : Char) (width : Nat) (rest : Text) : Except Text (CodePoint × Nat) :=
  let digits := (rest.take width).takeWhile (·.hexValue?.isSome)
  if digits.length = width then
    let number := digits.foldl (fun value digit => 16 * value + digit.hexValue?.getD 0) 0
    .ok (CodePoint.ofNat number, width + 1)
  else .error (.scalar letter :: digits)

/-- The code point that an escape after a backslash denotes and the length of the
escape, or the sequence that is no escape. -/
def escape : Text → Except Text (CodePoint × Nat)
  | [] => .error []
  | .scalar 'n' :: _ => .ok (.scalar '\n', 1)
  | .scalar 't' :: _ => .ok (.scalar '\t', 1)
  | .scalar 'r' :: _ => .ok (.scalar '\r', 1)
  | .scalar '\\' :: _ => .ok (.scalar '\\', 1)
  | .scalar '"' :: _ => .ok (.scalar '"', 1)
  | .scalar '\'' :: _ => .ok (.scalar '\'', 1)
  | .scalar '0' :: _ => .ok (.scalar '\x00', 1)
  | .scalar 'x' :: rest => hexEscape 'x' 2 rest
  | .scalar 'u' :: rest => hexEscape 'u' 4 rest
  | code :: _ => .error [code]

/-- The content of a string literal after `size` code points of it, and its whole
size; `skip` code points belong to an escape already read. -/
def stringBody : (size skip : Nat) → Text → Except Misread (Text × Nat)
  | size, _, [] => .error ⟨.unterminatedString, 0, size⟩
  | size, skip + 1, _ :: rest => stringBody (size + 1) skip rest
  | size, 0, code :: rest =>
      if code = .scalar '"' then .ok ([], size + 1)
      else if code = .scalar '\n' then .error ⟨.unterminatedString, 0, size⟩
      else if code = .scalar '\\' then
        match escape rest with
        | .error sequence =>
            .error ⟨.unknownEscape sequence, size + 1, size + 1 + sequence.length⟩
        | .ok (value, width) =>
            match stringBody (size + 1) width rest with
            | .error misread => .error misread
            | .ok (values, total) => .ok (value :: values, total)
      else
        match stringBody (size + 1) 0 rest with
        | .error misread => .error misread
        | .ok (values, total) => .ok (code :: values, total)

/-- A string literal, from after its opening quote. -/
def string (rest : Text) : Scanned :=
  match stringBody 1 0 rest with
  | .ok (value, size) => .token (.string value) size
  | .error misread => .misread misread

/-- A raw string literal, from after its opening quote. -/
def rawString (rest : Text) : Scanned :=
  let body := rest.takeWhile fun code => code != .scalar '"' && code != .scalar '\n'
  match rest.drop body.length with
  | .scalar '"' :: _ => .token (.rawString body) (body.length + 3)
  | _ => .misread ⟨.unterminatedString, 0, body.length + 2⟩

/-- The end of a character literal after `size` code points of it have given
`value`. -/
def characterEnd (text : Text) (value : CodePoint) (size : Nat) : Scanned :=
  match text.drop size with
  | .scalar '\'' :: _ => .token (.char value) (size + 1)
  | rest =>
      let body := rest.takeWhile fun code => code != .scalar '\'' && code != .scalar '\n'
      match rest.drop body.length with
      | .scalar '\'' :: _ =>
          let total := size + body.length + 1
          .misread ⟨.malformedCharacter (text.take total), 0, total⟩
      | _ => .misread ⟨.unterminatedCharacter, 0, size + body.length⟩

/-- A character literal; `text` starts with its opening quote. -/
def character (text : Text) : Scanned :=
  match text.drop 1 with
  | [] | .scalar '\n' :: _ => .misread ⟨.unterminatedCharacter, 0, 1⟩
  | .scalar '\'' :: _ => .misread ⟨.malformedCharacter (text.take 2), 0, 2⟩
  | .scalar '\\' :: rest =>
      match escape rest with
      | .ok (value, width) => characterEnd text value (2 + width)
      | .error sequence => .misread ⟨.unknownEscape sequence, 2, 2 + sequence.length⟩
  | value :: _ => characterEnd text value 2

/-- Whether a text starts with a digit, or with a point and a digit. -/
def startsUnsigned : Text → Bool
  | .scalar '.' :: code :: _ => code.isDigit
  | code :: _ => code.isDigit
  | [] => false

/-- Whether a text starts with a number; a sign counts only where it is allowed. -/
def startsNumber (signAllowed : Bool) (text : Text) : Bool :=
  match text with
  | .scalar '+' :: rest | .scalar '-' :: rest => signAllowed && startsUnsigned rest
  | _ => startsUnsigned text

/-- The least integer of a program. -/
def leastInteger : Int :=
  -9223372036854775808

/-- The greatest integer of a program. -/
def greatestInteger : Int :=
  9223372036854775807

/-- The integer literal made of a sign and digits. -/
def integer (negative : Bool) (digits lexeme : Text) : Scanned :=
  if Abort.mostDigits < digits.length then .abort (.digitLimit digits.length)
  else
    let magnitude : Int := Text.digitsValue digits
    let value := if negative then -magnitude else magnitude
    if leastInteger ≤ value ∧ value ≤ greatestInteger then .token (.int value) lexeme.length
    else .misread ⟨.integerTooWide lexeme, 0, lexeme.length⟩

/-- The float literal made of a sign, digits and digits after the point. -/
def decimal (negative : Bool) (digits fraction lexeme : Text) : Scanned :=
  let magnitude := Float.ofScientific (Text.digitsValue (digits ++ fraction)) true fraction.length
  .token (.float (if negative then -magnitude else magnitude)) lexeme.length

/-- Whether a code point right after a number spoils it. -/
def spoilsNumber (code : CodePoint) : Bool :=
  code == .scalar '.' || code.isLetter || code == .scalar '_'

/-- The size of the sign at the head of a text. -/
def signSize : Text → Nat
  | .scalar '+' :: _ | .scalar '-' :: _ => 1
  | _ => 0

/-- The digits after a point at the head of a text. -/
def fraction? : Text → Option Text
  | .scalar '.' :: rest => some (rest.takeWhile (·.isDigit))
  | _ => none

/-- A number literal; `text` starts with it. -/
def number (text : Text) : Scanned :=
  let negative := text.head? == some (.scalar '-')
  let digits := (text.drop (signSize text)).takeWhile (·.isDigit)
  let wholeSize := signSize text + digits.length
  let fraction? := fraction? (text.drop wholeSize)
  let size := wholeSize + (fraction?.map (·.length + 1)).getD 0
  let rest := text.drop size
  if rest.head?.any spoilsNumber then
    let tail := rest.takeWhile fun code => code.continuesWord || code == .scalar '.'
    let total := size + tail.length
    .misread ⟨.malformedNumber (text.take total), 0, total⟩
  else
    let lexeme := text.take size
    match fraction? with
    | some fraction => decimal negative digits fraction lexeme
    | none => integer negative digits lexeme

/-- The symbol of a word. -/
def wordSymbol (word : Text) : Symbol :=
  if word = Text.ofChars ['l', 'e', 't'] then .mark .letWord
  else if word = Text.ofChars ['v', 'a', 'r'] then .mark .varWord
  else if word = Text.ofChars ['f', 'u', 'n'] then .mark .funWord
  else if word = Text.ofChars ['t', 'r', 'u', 'e'] then .bool true
  else if word = Text.ofChars ['f', 'a', 'l', 's', 'e'] then .bool false
  else .identifier word

/-- A keyword or an identifier; `text` starts with it. -/
def word (text : Text) : Scanned :=
  let letters := text.takeWhile (·.continuesWord)
  .token (wordSymbol letters) letters.length

/-- An operator, a bracket or another sign; the longer of two readings is taken. -/
def sign (first : CodePoint) (rest : Text) : Scanned :=
  match first, rest with
  | .scalar '-', .scalar '>' :: _ => .token (.mark .arrow) 2
  | .scalar '=', .scalar '=' :: _ => .token (.mark .equal) 2
  | .scalar '!', .scalar '=' :: _ => .token (.mark .notEqual) 2
  | .scalar '<', .scalar '=' :: _ => .token (.mark .lessEqual) 2
  | .scalar '>', .scalar '=' :: _ => .token (.mark .greaterEqual) 2
  | .scalar '+', _ => .token (.mark .plus) 1
  | .scalar '-', _ => .token (.mark .minus) 1
  | .scalar '*', _ => .token (.mark .star) 1
  | .scalar '/', _ => .token (.mark .slash) 1
  | .scalar '%', _ => .token (.mark .percent) 1
  | .scalar '^', _ => .token (.mark .caret) 1
  | .scalar '<', _ => .token (.mark .less) 1
  | .scalar '>', _ => .token (.mark .greater) 1
  | .scalar '=', _ => .token (.mark .assign) 1
  | .scalar ':', _ => .token (.mark .colon) 1
  | .scalar ',', _ => .token (.mark .comma) 1
  | .scalar '(', _ => .token (.mark .openParen) 1
  | .scalar ')', _ => .token (.mark .closeParen) 1
  | .scalar '[', _ => .token (.mark .openBracket) 1
  | .scalar ']', _ => .token (.mark .closeBracket) 1
  | .scalar '\x7b', _ => .token (.mark .openBrace) 1
  | .scalar '\x7d', _ => .token (.mark .closeBrace) 1
  | code, _ => .misread ⟨.unexpectedCharacter code, 0, 1⟩

end Scan

/-- Scans the token at the head `first` of a text that goes on with `rest`. -/
def scan (signAllowed : Bool) (first : CodePoint) (rest : Text) : Scanned :=
  match first, rest with
  | .scalar '"', _ => Scan.string rest
  | .scalar 'r', .scalar '"' :: body => Scan.rawString body
  | .scalar '\'', _ => Scan.character (first :: rest)
  | _, _ =>
      if Scan.startsNumber signAllowed (first :: rest) then Scan.number (first :: rest)
      else if first.startsWord then Scan.word (first :: rest)
      else Scan.sign first rest

end Offside
