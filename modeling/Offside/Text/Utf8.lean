import Offside.Text.CodePoint

namespace Offside

/-!
# UTF-8

Strict decoding of UTF-8.  A failure names the first bytes that are no code point:
an impossible first byte, the bytes before an impossible continuation, or all bytes
of a sequence that the end of the data cuts short.
-/

namespace Utf8

/-- Why bytes are no text, and which ones. -/
inductive Malformed where
  | startByte (position : Nat) (byte : UInt8)
  | continuation (position : Nat) (byte : UInt8) (length : Nat)
  | truncated (position : Nat) (byte : UInt8) (length : Nat)
deriving Repr, DecidableEq

namespace Malformed

/-- The bytes of a failure in its message. -/
def bytesText (position : Nat) (byte : UInt8) (length : Nat) : Text :=
  if length = 1 then
    let hex := fun (digit : Nat) => CodePoint.scalar (Nat.digitChar digit)
    Text.ofString "byte 0x" ++ [hex (byte.toNat / 16), hex (byte.toNat % 16)] ++
      " in position " ++ Text.ofNat position
  else
    Text.ofString "bytes in position " ++ Text.ofNat position ++ "-" ++
      Text.ofNat (position + length - 1)

/-- The wording of a failure. -/
def message (malformed : Malformed) : Text :=
  let (bytes, reason) : Text × String :=
    match malformed with
    | .startByte position byte => (bytesText position byte 1, "invalid start byte")
    | .continuation position byte length =>
        (bytesText position byte length, "invalid continuation byte")
    | .truncated position byte length =>
        (bytesText position byte length, "unexpected end of data")
  Text.ofString "'utf-8' codec can't decode " ++ bytes ++ ": " ++ reason

end Malformed

/-- Whether a byte continues a sequence. -/
def continues (byte : UInt8) : Bool :=
  0x80 ≤ byte && byte < 0xC0

/-- How many bytes a sequence has by its first byte; none for a byte that starts no
sequence. -/
def width? (first : UInt8) : Option Nat :=
  if first < 0x80 then some 1
  else if first < 0xC2 then none
  else if first < 0xE0 then some 2
  else if first < 0xF0 then some 3
  else if first < 0xF5 then some 4
  else none

/-- Whether a second byte can follow a first one: overlong forms, surrogates and
numbers past the last code point are excluded there. -/
def follows (first second : UInt8) : Bool :=
  continues second &&
    !(first == 0xE0 && second < 0xA0) && !(first == 0xED && 0xA0 ≤ second) &&
    !(first == 0xF0 && second < 0x90) && !(first == 0xF4 && 0x90 ≤ second)

/-- How many bytes after the first are right, of those that a sequence needs. -/
def goodContinuations (first : UInt8) (rest : List UInt8) : Nat :=
  match rest with
  | [] => 0
  | second :: later =>
      if follows first second then 1 + (later.takeWhile continues).length else 0

/-- The number that the bytes of a sequence encode. -/
def decodeBytes (width : Nat) (first : UInt8) (rest : List UInt8) : Nat :=
  let head :=
    match width with
    | 1 => first.toNat
    | 2 => first.toNat % 0x20
    | 3 => first.toNat % 0x10
    | _ => first.toNat % 0x08
  (rest.take (width - 1)).foldl (fun value byte => 64 * value + byte.toNat % 64) head

/-- Decodes from a position on; `skip` bytes belong to a sequence already read. -/
def decodeFrom (position skip : Nat) : List UInt8 → Except Malformed Text
  | [] => .ok []
  | first :: rest =>
      if 0 < skip then decodeFrom (position + 1) (skip - 1) rest
      else
        match width? first with
        | none => .error (.startByte position first)
        | some width =>
            let needed := width - 1
            let good := min needed (goodContinuations first (rest.take needed))
            if good = needed then
              match decodeFrom (position + 1) needed rest with
              | .ok text => .ok (CodePoint.ofNat (decodeBytes width first rest) :: text)
              | .error malformed => .error malformed
            else if rest.length = good then .error (.truncated position first (good + 1))
            else .error (.continuation position first (good + 1))

/-- The text that bytes encode. -/
def decode (bytes : List UInt8) : Except Malformed Text :=
  decodeFrom 0 0 bytes

end Utf8

namespace Text

/-- The text with every line end written as a line feed. -/
def unifyLineEnds : Text → Text
  | [] => []
  | .scalar '\r' :: .scalar '\n' :: rest => .scalar '\n' :: unifyLineEnds rest
  | .scalar '\r' :: rest => .scalar '\n' :: unifyLineEnds rest
  | code :: rest => code :: unifyLineEnds rest

end Text

end Offside
