import Offside.Text.Quoted

namespace Offside

/-!
# Use of the command line

The jobs of the command line, their options, and the ways in which a command line can be
wrong.
-/

/-- What the command line can do. -/
inductive Job where
  | run
  | check
  | tokens
  | eval
deriving Repr, DecidableEq

/-- The options of the command line. -/
inductive Flag where
  | help
  | json
  | config
  | maxCallDepth
deriving Repr, DecidableEq

namespace Flag

/-- The spellings of an option. -/
def spellings : Flag → List String
  | .help => ["-h", "--help"]
  | .json => ["--json"]
  | .config => ["-c", "--config"]
  | .maxCallDepth => ["--max-call-depth"]

/-- The option in messages. -/
def label (flag : Flag) : Text :=
  Text.join "/" (flag.spellings.map Text.ofString)

/-- Whether an option takes an argument. -/
def takesArgument : Flag → Bool
  | .help | .json => false
  | .config | .maxCallDepth => true

end Flag

namespace Job

/-- Every job, in the order of messages. -/
def all : List Job :=
  [.run, .check, .tokens, .eval]

/-- The name of a job. -/
def name : Job → String
  | .run => "run"
  | .check => "check"
  | .tokens => "tokens"
  | .eval => "eval"

/-- The job with a given name. -/
def ofName? (name : Text) : Option Job :=
  all.find? fun job => Text.ofString job.name == name

/-- The options of a job. -/
def flags : Job → List Flag
  | .run | .eval => [.help, .json, .config, .maxCallDepth]
  | .check | .tokens => [.help, .json]

/-- The name of what a job works on. -/
def subjectName : Job → String
  | .run | .check | .tokens => "file"
  | .eval => "expr"

end Job

/-- What is wrong with a command line. -/
inductive UsageError where
  | missing (name : String)
  | unknownJob (name : Text)
  | ambiguous (argument : Text) (matching : List String)
  | noArgument (flag : Flag)
  | surplusArgument (flag : Flag) (argument : Text)
  | notInteger (flag : Flag) (argument : Text)
  | unrecognized (arguments : List Text)
deriving Repr, DecidableEq

namespace UsageError

/-- The wording of an error. -/
def message : UsageError → Text
  | .missing name => "the following arguments are required: " ++ Text.ofString name
  | .unknownJob name =>
      let choices := Job.all.map fun job => Text.dumped job.name
      "argument action: invalid choice: " ++ Text.dumped name ++ " (choose from " ++
        Text.join ", " choices ++ ")"
  | .ambiguous argument matching =>
      "ambiguous option: " ++ argument ++ " could match " ++
        Text.join ", " (matching.map Text.ofString)
  | .noArgument flag => "argument " ++ flag.label ++ ": expected one argument"
  | .surplusArgument flag argument =>
      "argument " ++ flag.label ++ ": ignored explicit argument " ++ Text.dumped argument
  | .notInteger flag argument =>
      "argument " ++ flag.label ++ ": invalid int value: " ++ Text.dumped argument
  | .unrecognized arguments => "unrecognized arguments: " ++ Text.join " " arguments

end UsageError

/-- Why a command line starts no job: help is asked for, or it is wrong, for a job if one
is named. -/
inductive Refusal where
  | help
  | misuse (job : Option Job) (error : UsageError)
deriving Repr, DecidableEq

namespace Refusal

/-- The exit status of a refusal. -/
def status : Refusal → Nat
  | .help => 0
  | .misuse _ _ => 2

/-- The program in messages. -/
def program : Option Job → Text
  | none => "python -m eucalyptus"
  | some job => "python -m eucalyptus " ++ Text.ofString job.name

/-- The wording of a refusal. -/
def message : Refusal → Text
  | .help => []
  | .misuse job error => program job ++ ": error: " ++ error.message

end Refusal

end Offside
