import Offside.Command.Invocation
import Offside.JsonText
import Offside.Run.Session
import Offside.Settings.Load
import Offside.Token.Basic

namespace Offside

/-!
# Commands

What each job writes and how it ends.  A job that cannot go on for a reason outside of the
language crashes instead, before it has written anything.
-/

/-- What a job wrote and its exit status. -/
structure Report where
  status : Nat
  output : Text
  errors : Text
deriving Repr, DecidableEq

/-- Why a job crashed. -/
inductive Crash where
  | abort (abort : Abort)
  | file (error : FileError)
  | settings (error : SettingsError)

namespace Crash

/-- The wording of a crash. -/
def message : Crash → Text
  | .abort cause => cause.message
  | .file error => error.message
  | .settings error => error.message

end Crash

namespace Diagnostic

/-- A position as JSON. -/
def positionJson (position : Position) : JsonText :=
  .object [("line", .int position.line), ("column", .int position.column),
    ("offset", .int position.offset)]

/-- A span as JSON. -/
def rangeJson (span : Span) : JsonText :=
  .object [("start", positionJson span.start), ("end", positionJson span.stop)]

/-- A diagnostic as JSON. -/
def json (diagnostic : Diagnostic) : JsonText :=
  .object [("code", .text diagnostic.code), ("message", .text diagnostic.message),
    ("severity", .text diagnostic.severity.name),
    ("range", (diagnostic.span.map rangeJson).getD .null),
    ("hints", .list (diagnostic.hints.map .text))]

end Diagnostic

namespace Token

/-- A token as JSON. -/
def json (token : Token) : JsonText :=
  .object [("type", .text token.kind.name), ("lexeme", .text token.lexeme),
    ("line", .int token.span.start.line), ("column", .int token.span.start.column)]

/-- A token on a line of a listing. -/
def listingLine (token : Token) : Text :=
  Text.ofNat token.span.start.line ++ ":" ++ Text.ofNat token.span.start.column ++ "\t" ++
    token.symbol.listed

end Token

namespace Report

/-- A text as a line of output. -/
def endLine (text : Text) : Text :=
  text ++ [.scalar '\n']

/-- The report of a job that wrote one text and is done. -/
def success (text : Text) : Report :=
  ⟨0, endLine text, []⟩

/-- The report of a job that could not start. -/
def refusal (message : Text) : Report :=
  ⟨1, [], endLine ("Error: " ++ message)⟩

/-- The report of a job that failed. -/
def failure (json : Bool) : Failure → Except Crash Report
  | .abort cause => .error (.abort cause)
  | .fault fault =>
      let diagnostic := fault.diagnostic
      let text := if json then diagnostic.json.page 0 else diagnostic.report true
      .ok ⟨1, [], endLine text⟩

end Report

namespace Invocation

/-- Goes on with the text of the file that an invocation names. -/
def withSource (invocation : Invocation) (surroundings : Surroundings)
    (next : Text → Except Crash Report) : Except Crash Report :=
  let path := Path.ofText invocation.subject
  match surroundings.find? path with
  | none => .ok (Report.refusal ("File not found: " ++ path.text))
  | some entry =>
      match entry.text path with
      | .error error => .error (.file error)
      | .ok source => next source

/-- The settings for an invocation. -/
def settings (invocation : Invocation) (surroundings : Surroundings) :
    Except SettingsError Settings := do
  let loaded ← Settings.load surroundings invocation.config
  match invocation.maxCallDepth with
  | none => return loaded
  | some depth => Settings.make (some (.int depth)) (some loaded.fileName)

/-- Goes on with the settings for an invocation. -/
def withSettings (invocation : Invocation) (surroundings : Surroundings)
    (next : Settings → Except Crash Report) : Except Crash Report :=
  match invocation.settings surroundings with
  | .error error =>
      if error.isReported then .ok (Report.refusal error.message)
      else .error (.settings error)
  | .ok settings => next settings

/-- The report on the value of a source. -/
def valueReport (invocation : Invocation)
    (outcome : Except Failure (Option Value) × Machine) : Except Crash Report :=
  match outcome with
  | (.error failure, _) => Report.failure invocation.json failure
  | (.ok none, _) => .ok ⟨0, [], []⟩
  | (.ok (some value), machine) =>
      if invocation.json then
        let record : JsonText :=
          .object [("kind", .text value.kind.name),
            ("value", .text (machine.store.displayNested value))]
        .ok (Report.success record.line)
      else .ok (Report.success (machine.store.display value))

/-- The report on the program of a source. -/
def checkReport (invocation : Invocation) (source : Text) : Except Crash Report :=
  match Program.ofSource (some invocation.subject) source with
  | .error failure => Report.failure invocation.json (failure.attach source.lines)
  | .ok program =>
      .ok (Report.success ("OK: " ++ (Path.ofText invocation.subject).name ++ " - " ++
        Text.ofNat program.statements.length ++ " statement(s), no errors"))

/-- The report on the tokens of a source. -/
def tokensReport (invocation : Invocation) (source : Text) : Except Crash Report :=
  match layoutTokens (some invocation.subject) source with
  | .error failure => Report.failure invocation.json (failure.attach source.lines)
  | .ok tokens =>
      if invocation.json then
        .ok (Report.success ((JsonText.list (tokens.map Token.json)).page 0))
      else .ok ⟨0, tokens.flatMap fun token => Report.endLine token.listingLine, []⟩

/-- Does what an invocation asks for. -/
def perform (surroundings : Surroundings) (invocation : Invocation) : Except Crash Report :=
  match invocation.job with
  | .run =>
      invocation.withSource surroundings fun source =>
        invocation.withSettings surroundings fun settings =>
          invocation.valueReport
            (Session.run (settings.withFileName (.text invocation.subject)) source
              Session.start)
  | .check => invocation.withSource surroundings invocation.checkReport
  | .tokens => invocation.withSource surroundings invocation.tokensReport
  | .eval =>
      invocation.withSettings surroundings fun settings =>
        invocation.valueReport (Session.evaluate settings invocation.subject Session.start)

end Invocation

end Offside
