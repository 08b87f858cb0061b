import Offside.Command.Usage
import Offside.Text.Integer

namespace Offside

/-!
# Invocations

A command line names a job, then the subject of the job among its options.  An option can
be shortened as long as it stays unique, and its argument can be joined to it.  What
follows two dashes is no option, and neither is a negative number or a text with a blank.
-/

/-- What a command line asks for. -/
structure Invocation where
  job : Job
  subject : Text
  json : Bool
  config : Option Text
  maxCallDepth : Option Int
deriving Repr, DecidableEq

/-- An argument by its form; an option can have an argument joined to it, with an equals
sign or without. -/
inductive Argument where
  | plain (text : Text)
  | separator
  | option (flag : Flag) (isLong : Bool) (joined : Option (Bool × Text))
  | unknown (text : Text)
deriving Repr, DecidableEq

namespace Argument

/-- The text before the first equals sign, and what follows it. -/
def splitEquals : Text → Text × Option Text
  | [] => ([], none)
  | code :: rest =>
      if code = .scalar '=' then ([], some rest)
      else
        let (before, after) := splitEquals rest
        (code :: before, after)

/-- The options with their spellings. -/
def spelled (flags : List Flag) : List (Flag × Text) :=
  flags.flatMap fun flag => flag.spellings.map fun spelling => (flag, Text.ofString spelling)

/-- Whether a text starts with two dashes. -/
def isLong : Text → Bool
  | .scalar '-' :: .scalar '-' :: _ => true
  | _ => false

/-- Whether a text is digits, or digits around a point with some after it. -/
def isUnsignedNumber (text : Text) : Bool :=
  let isFigure := fun (code : CodePoint) => code.digitValue?.isSome
  match text.dropWhile isFigure with
  | [] => !text.isEmpty
  | .scalar '.' :: fraction => !fraction.isEmpty && fraction.all isFigure
  | _ => false

/-- Whether a text looks like a negative number; a line feed may end it. -/
def isNegativeNumber : Text → Bool
  | .scalar '-' :: rest =>
      isUnsignedNumber rest ||
        (rest.getLast? == some (.scalar '\n') && isUnsignedNumber rest.dropLast)
  | _ => false

/-- The options that an abbreviation can stand for. -/
def candidates (flags : List Flag) (text : Text) : List (Flag × Text × Option (Bool × Text)) :=
  if isLong text then
    let (stem, after) := splitEquals text
    (spelled flags).filterMap fun (flag, spelling) =>
      if stem.isPrefixOf spelling then some (flag, spelling, after.map ((true, ·))) else none
  else
    (spelled flags).filterMap fun (flag, spelling) =>
      if spelling = text.take 2 then some (flag, spelling, some (false, text.drop 2))
      else if text.isPrefixOf spelling then some (flag, spelling, none)
      else none

/-- An argument that starts with a dash and is no option by its exact spelling. -/
def abbreviated (flags : List Flag) (text : Text) : Except UsageError Argument :=
  match candidates flags text with
  | [(flag, spelling, joined)] => .ok (.option flag (isLong spelling) joined)
  | [] =>
      if isNegativeNumber text || text.contains (.scalar ' ') then .ok (.plain text)
      else .ok (.unknown text)
  | several => .error (.ambiguous text (several.map fun (_, spelling, _) => spelling.toString))

/-- The form of an argument. -/
def classify (flags : List Flag) (text : Text) : Except UsageError Argument :=
  let spelledAs? := fun (spelling : Text) => (spelled flags).find? (·.2 == spelling)
  match text with
  | [] | [_] => .ok (.plain text)
  | .scalar '-' :: _ =>
      match spelledAs? text, splitEquals text with
      | some (flag, _), _ => .ok (.option flag (isLong text) none)
      | none, (stem, some after) =>
          match spelledAs? stem with
          | some (flag, _) => .ok (.option flag (isLong stem) (some (true, after)))
          | none => abbreviated flags text
      | none, (_, none) => abbreviated flags text
  | _ => .ok (.plain text)

/-- The forms of all arguments; after the separator all are plain. -/
def classifyAll (flags : List Flag) : List Text → Except UsageError (List Argument)
  | [] => .ok []
  | text :: rest =>
      if text = Text.ofString "--" then .ok (.separator :: rest.map .plain)
      else do
        let argument ← classify flags text
        return argument :: (← classifyAll flags rest)

end Argument

/-- What is known of an invocation while its arguments are read, and the arguments that
have no use. -/
structure Draft where
  subject : Option Text
  json : Bool
  config : Option Text
  maxCallDepth : Option Int
  surplus : List Text
deriving Repr, DecidableEq

namespace Draft

/-- The draft before any argument. -/
def empty : Draft :=
  ⟨none, false, none, none, []⟩

/-- Adds an argument that has no use. -/
def discard (draft : Draft) (text : Text) : Draft :=
  { draft with surplus := draft.surplus ++ [text] }

/-- Gives an option its argument. -/
def setArgument (job : Job) (flag : Flag) (argument : Text) (draft : Draft) :
    Except Refusal Draft :=
  match flag with
  | .config => .ok { draft with config := some argument }
  | .maxCallDepth =>
      match argument.toInt? with
      | some depth => .ok { draft with maxCallDepth := some depth }
      | none => .error (.misuse (some job) (.notInteger flag argument))
  | .help | .json => .ok draft

/-- Sets an option that takes no argument. -/
def setFlag (flag : Flag) (draft : Draft) : Except Refusal Draft :=
  match flag with
  | .help => .error .help
  | .json => .ok { draft with json := true }
  | .config | .maxCallDepth => .ok draft

/-- Sets an option with an argument joined to it.  A short option without argument can
stand before others in one word. -/
def setJoined (job : Option Job) (flag : Flag) (isLong withEquals : Bool) (argument : Text)
    (draft : Draft) : Except Refusal Draft :=
  match flag.takesArgument, job with
  | true, some named => setArgument named flag argument draft
  | _, _ =>
      if isLong || withEquals || argument.head? == some (.scalar '-') then
        .error (.misuse job (.surplusArgument flag argument))
      else setFlag flag draft

/-- Takes a plain argument: as the subject if there is none yet. -/
def setPlain (text : Text) (draft : Draft) : Draft :=
  match draft.subject with
  | none => { draft with subject := some text }
  | some _ => draft.discard text

/-- What the argument before leaves open: an option its argument, or the subject a
separator right after it. -/
inductive Open where
  | nothing
  | argument (flag : Flag)
  | separator
deriving Repr, DecidableEq

/-- Reads one argument of a job.  The separator counts as useless only when the subject is
there and was not read right before it. -/
def step (job : Job) (state : Open × Draft) (argument : Argument) :
    Except Refusal (Open × Draft) :=
  let (before, draft) := state
  match before, argument with
  | .argument flag, .plain text => do
      return (.nothing, ← draft.setArgument job flag text)
  | .argument flag, _ => .error (.misuse (some job) (.noArgument flag))
  | _, .unknown text => .ok (.nothing, draft.discard text)
  | _, .option flag isLong (some (withEquals, text)) => do
      return (.nothing, ← draft.setJoined (some job) flag isLong withEquals text)
  | _, .option flag _ none =>
      if flag.takesArgument then .ok (.argument flag, draft)
      else do return (.nothing, ← draft.setFlag flag)
  | .separator, .separator => .ok (.nothing, draft)
  | .nothing, .separator =>
      .ok (.nothing, if draft.subject.isSome then draft.discard "--" else draft)
  | _, .plain text =>
      .ok (if draft.subject.isSome then .nothing else .separator, draft.setPlain text)

/-- Reads the arguments of a job. -/
def read (job : Job) (arguments : List Argument) : Except Refusal Draft := do
  match ← arguments.foldlM (step job) (.nothing, empty) with
  | (.argument flag, _) => .error (.misuse (some job) (.noArgument flag))
  | (_, draft) => return draft

end Draft

namespace Invocation

/-- Reads the arguments after the name of a job. -/
def ofJob (surplus : List Text) (job : Job) (arguments : List Text) :
    Except Refusal Invocation :=
  match Argument.classifyAll job.flags arguments with
  | .error error => .error (.misuse (some job) error)
  | .ok forms => do
      let draft ← Draft.read job forms
      match draft.subject, surplus ++ draft.surplus with
      | none, _ => .error (.misuse (some job) (.missing job.subjectName))
      | some _, first :: rest => .error (.misuse none (.unrecognized (first :: rest)))
      | some subject, [] =>
          .ok ⟨job, subject, draft.json, draft.config, draft.maxCallDepth⟩

/-- Looks for the name of a job; what stands before it has no use. -/
def find (surplus : List Text) : List Text → Except Refusal Invocation
  | [] => .error (.misuse none (.missing "action"))
  | text :: rest =>
      if text = Text.ofString "--" then
        match rest with
        | [] => .error (.misuse none (.missing "action"))
        | _ :: _ => .error (.misuse none (.unknownJob text))
      else
        match Argument.classify [.help] text with
        | .error error => .error (.misuse none error)
        | .ok (.option flag isLong (some (withEquals, argument))) =>
            match Draft.empty.setJoined none flag isLong withEquals argument with
            | .error refusal => .error refusal
            | .ok _ => .error .help
        | .ok (.option _ _ none) => .error .help
        | .ok (.unknown _) => find (surplus ++ [text]) rest
        | .ok .separator => .error (.misuse none (.unknownJob text))
        | .ok (.plain _) =>
            match Job.ofName? text with
            | some job => ofJob surplus job rest
            | none => .error (.misuse none (.unknownJob text))

/-- The invocation that a command line asks for. -/
def ofArguments (arguments : List Text) : Except Refusal Invocation :=
  find [] arguments

end Invocation

end Offside
