import Offside.Text.CodePoint

namespace Offside

/-!
# Positions and spans

Positions count code points.  Lines and columns start at one and offsets at zero;
only a line feed starts a new line.
-/

/-- A place in a source text. -/
structure Position where
  line : Nat
  column : Nat
  offset : Nat
deriving Repr, DecidableEq

namespace Position

/-- The place before the first code point. -/
def origin : Position :=
  ⟨1, 1, 0⟩

/-- The place after one more code point. -/
def advance (position : Position) (code : CodePoint) : Position :=
  if code = .scalar '\n' then ⟨position.line + 1, 1, position.offset + 1⟩
  else ⟨position.line, position.column + 1, position.offset + 1⟩

/-- The place after a piece of text. -/
def advanceBy (position : Position) (text : Text) : Position :=
  text.foldl advance position

/-- Line and column, as reports show them. -/
def text (position : Position) : Text :=
  Text.ofNat position.line ++ .scalar ':' :: Text.ofNat position.column

end Position

/-- A range of a source text, with the name of its file if it has one. -/
structure Span where
  file : Option Text
  start : Position
  stop : Position
deriving Repr, DecidableEq

namespace Span

/-- The name of the file followed by a colon; an empty name counts as none. -/
def fileLabel (span : Span) : Text :=
  match span.file with
  | none => []
  | some [] => []
  | some name => name ++ [.scalar ':']

/-- Where a span starts, as reports show it. -/
def place (span : Span) : Text :=
  span.fileLabel ++ span.start.text

/-- Both ends of a span, as reports show them. -/
def text (span : Span) : Text :=
  span.place ++ .scalar '-' :: span.stop.text

/-- The empty span at the start of another. -/
def atStart (span : Span) : Span :=
  { span with stop := span.start }

/-- The span from the start of one to the end of another. -/
def through (first last : Span) : Span :=
  { first with stop := last.stop }

/-- The line on which a span starts, among the lines of a source. -/
def lineAmong? (span : Span) (lines : List Text) : Option Text :=
  match span.start.line with
  | 0 => none
  | index + 1 => lines[index]?

end Span

end Offside
