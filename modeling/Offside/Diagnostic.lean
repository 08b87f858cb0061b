import Offside.Source.Span

namespace Offside

/-!
# Diagnostics

A diagnostic is a coded message about a span of a source.  Its report has the
place and the message on the first line, then the source line with carets under
the span, then the hints.
-/

/-- How serious a diagnostic is. -/
inductive Severity where
  | error
  | warning
  | info
  | hint
deriving Repr, DecidableEq

namespace Severity

/-- The name of a severity in reports. -/
def name : Severity → String
  | .error => "error"
  | .warning => "warning"
  | .info => "info"
  | .hint => "hint"

/-- The severity with a given name. -/
def ofName? (name : String) : Option Severity :=
  [Severity.error, .warning, .info, .hint].find? (·.name == name)

end Severity

/-- A coded message about a source text. -/
structure Diagnostic where
  code : Text
  message : Text
  severity : Severity
  span : Option Span
  sourceLine : Option Text
  hints : List Text
deriving Repr, DecidableEq

namespace Diagnostic

/-- The first line of a report. -/
def header (diagnostic : Diagnostic) : Text :=
  let place :=
    match diagnostic.span with
    | some span => span.place ++ ": "
    | none => []
  place ++ diagnostic.severity.name ++ "[" ++ diagnostic.code ++ "]: " ++ diagnostic.message

/-- How many carets mark a span on its first line; a span that goes on to later
lines is marked to the end of the line. -/
def caretCount (span : Span) (line : Text) : Nat :=
  let stop :=
    if span.start.line = span.stop.line then span.stop.column else line.length + 1
  max 1 (stop - span.start.column)

/-- The source line with its number, and the carets under the span. -/
def excerpt (span : Span) (line : Text) : List Text :=
  ["  |",
   Text.padLeft 3 (Text.ofNat span.start.line) ++ " | " ++ line,
   "    | " ++ List.replicate (span.start.column - 1) (CodePoint.scalar ' ') ++
     List.replicate (caretCount span line) (CodePoint.scalar '^')]

/-- The lines of a report, with the source line if `showSource` asks for it. -/
def reportLines (diagnostic : Diagnostic) (showSource : Bool) : List Text :=
  let excerptLines :=
    match showSource, diagnostic.sourceLine, diagnostic.span with
    | true, some line, some span => excerpt span line
    | _, _, _ => []
  diagnostic.header :: (excerptLines ++ diagnostic.hints.map (Text.ofString "    = hint: " ++ ·))

/-- The report of a diagnostic. -/
def report (diagnostic : Diagnostic) (showSource : Bool) : Text :=
  Text.join [.scalar '\n'] (diagnostic.reportLines showSource)

/-- Adds the source line of a diagnostic that has a span and no line yet. -/
def attach (lines : List Text) (diagnostic : Diagnostic) : Diagnostic :=
  match diagnostic.sourceLine, diagnostic.span with
  | none, some span => { diagnostic with sourceLine := span.lineAmong? lines }
  | _, _ => diagnostic

end Diagnostic

end Offside
