import Offside.Text.Unicode

namespace Offside

/-!
# Quoted text

Two written forms of a text.  `quoted` is the form that the language itself can
read back: the quote, the backslash and four control characters are escaped.
`dumped` is the form of listings: it picks the quote that needs no escape and
writes every unprintable code point by its number.
-/

namespace Text

/-- One code point inside the given quotes. -/
def quotedCode (quote code : CodePoint) : Text :=
  if code = quote then [.scalar '\\', code]
  else
    match code with
    | .scalar '\n' => [.scalar '\\', .scalar 'n']
    | .scalar '\t' => [.scalar '\\', .scalar 't']
    | .scalar '\r' => [.scalar '\\', .scalar 'r']
    | .scalar '\\' => [.scalar '\\', .scalar '\\']
    | .scalar '\x00' => [.scalar '\\', .scalar '0']
    | _ => [code]

/-- The text between quotes, as the language reads it back. -/
def quoted (quote : CodePoint) (text : Text) : Text :=
  quote :: (text.flatMap (quotedCode quote) ++ [quote])

/-- The last `width` hexadecimal digits of a number, in lower case. -/
def hexDigits : (width : Nat) → Nat → Text
  | 0, _ => []
  | width + 1, number =>
      hexDigits width (number / 16) ++ [.scalar (Nat.digitChar (number % 16))]

/-- A code point written by its number, in the shortest of three widths. -/
def numberedCode (code : CodePoint) : Text :=
  let number := code.toNat
  if number < 0x100 then .scalar '\\' :: .scalar 'x' :: hexDigits 2 number
  else if number < 0x10000 then .scalar '\\' :: .scalar 'u' :: hexDigits 4 number
  else .scalar '\\' :: .scalar 'U' :: hexDigits 8 number

/-- One code point of a listing, inside the given quotes. -/
def dumpedCode (quote code : CodePoint) : Text :=
  if code = quote then [.scalar '\\', code]
  else
    match code with
    | .scalar '\\' => [.scalar '\\', .scalar '\\']
    | .scalar '\n' => [.scalar '\\', .scalar 'n']
    | .scalar '\r' => [.scalar '\\', .scalar 'r']
    | .scalar '\t' => [.scalar '\\', .scalar 't']
    | _ => if code.isPrintable then [code] else numberedCode code

/-- The quote of a listing: double only if the text has single quotes and no
double ones. -/
def dumpQuote (text : Text) : CodePoint :=
  if text.contains (.scalar '\'') && !text.contains (.scalar '"') then .scalar '"'
  else .scalar '\''

/-- The text as listings show it. -/
def dumped (text : Text) : Text :=
  let quote := dumpQuote text
  quote :: (text.flatMap (dumpedCode quote) ++ [quote])

end Text

end Offside
