import Offside.Run.Evaluation
import Offside.Settings.Basic
import Offside.Syntax.Program

namespace Offside

/-!
# Sessions

A session evaluates sources one after the other in one global frame.  What a source
binds before it fails stays bound.
-/

namespace Session

/-- The machine of a fresh session. -/
def start : Machine :=
  ⟨Store.initial, 0⟩

/-- The outcome of an action on a machine: its result, and the machine after it. -/
def outcome {α : Type} (action : Action α) (machine : Machine) :
    Except Failure α × Machine :=
  match action machine with
  | .ok value after => (.ok value, after)
  | .error failure after => (.error failure, after)

/-- The outcome with the source line attached to a failure. -/
def withSource {α : Type} (source : Text) (result : Except Failure α × Machine) :
    Except Failure α × Machine :=
  match result with
  | (.ok value, machine) => (.ok value, machine)
  | (.error failure, machine) => (.error (failure.attach source.lines), machine)

/-- Executes what a reader makes of a source. -/
def executeRead (settings : Settings) (read : Except Failure (List Stmt)) (machine : Machine) :
    Except Failure (Option Value) × Machine :=
  match read with
  | .error failure => (.error failure, machine)
  | .ok statements =>
      outcome (Evaluation.execute settings.maxCallDepth Store.globalScope statements) machine

/-- Runs a whole program in the global frame. -/
def run (settings : Settings) (source : Text) (machine : Machine) :
    Except Failure (Option Value) × Machine :=
  let read := (Program.ofSource settings.file source).map (·.statements)
  withSource source (executeRead settings read machine)

/-- Runs exactly one statement in the global frame. -/
def evaluate (settings : Settings) (source : Text) (machine : Machine) :
    Except Failure (Option Value) × Machine :=
  withSource source (executeRead settings (Stmt.ofSource settings.file source) machine)

/-- Executes a program that has no file name, without its source at hand. -/
def execute (settings : Settings) (source : Text) (machine : Machine) :
    Except Failure (Option Value) × Machine :=
  executeRead settings ((Program.ofSource none source).map (·.statements)) machine

/-- Evaluates the program node of a source itself, which has no value. -/
def evaluateNode (settings : Settings) (source : Text) (machine : Machine) :
    Except Failure Value × Machine :=
  match Program.ofSource none source with
  | .error failure => (.error failure, machine)
  | .ok program =>
      let site : Site := ⟨Store.globalScope, Evaluation.hostRoom⟩
      outcome (Evaluation.node settings.maxCallDepth site (.program program)) machine

/-- The bindings of the global frame. -/
def bindings (machine : Machine) : List (Text × Slot) :=
  ((machine.store.frame? Store.globalFrame).map (·.slots)).getD []

/-- A step of a session: a source that is run whole, or as exactly one statement. -/
structure Step where
  settings : Settings
  source : Text
  single : Bool

namespace Step

/-- What a step does. -/
def perform (step : Step) (machine : Machine) : Except Failure (Option Value) × Machine :=
  if step.single then Session.evaluate step.settings step.source machine
  else Session.run step.settings step.source machine

/-- The statements that a step reads. -/
def read (step : Step) : Except Failure (List Stmt) :=
  if step.single then Stmt.ofSource step.settings.file step.source
  else (Program.ofSource step.settings.file step.source).map (·.statements)

end Step

/-- The machine after the steps of a session. -/
def after (steps : List Step) : Machine :=
  steps.foldl (fun machine step => (step.perform machine).2) start

/-- A move of a session: a step that reads a source, or the execution of a program. -/
inductive Move where
  | step (asked : Step)
  | execute (settings : Settings) (program : Program)

namespace Move

def settings : Move → Settings
  | .step asked => asked.settings
  | .execute settings _ => settings

/-- The statements that a move executes, unless its source cannot be read. -/
def read : Move → Except Failure (List Stmt)
  | .step asked => asked.read
  | .execute _ program => .ok program.statements

/-- What a move does. -/
def perform (move : Move) (machine : Machine) : Except Failure (Option Value) × Machine :=
  match move with
  | .step asked => asked.perform machine
  | .execute settings program => executeRead settings (.ok program.statements) machine

end Move

/-- The machine after moves. -/
def play (moves : List Move) (machine : Machine) : Machine :=
  moves.foldl (fun machine move => (move.perform machine).2) machine

end Session

end Offside
