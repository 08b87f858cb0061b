import Offside.Proofs.Bindings.Permanence
import Offside.Proofs.Syntax.Spans

namespace Offside

/-!
# The syntax of a session

A move of a session evaluates what it reads, and calls functions that earlier moves have made.
So what holds of all the syntax that the moves read, and passes from each node to the nodes
below it, holds of the syntax of every evaluation that takes place in them.
-/

namespace Session

open Evaluation (Call Evaluates Ending)

/-- How a move ends: nothing is evaluated, or the statements that it reads are. -/
inductive Move.Ends (move : Move) (machine : Machine) :
    Except Failure (Option Value) × Machine → Prop where
  | stopped
      {failure : Failure} :
      Move.Ends move machine (.error failure, machine)
  | failed
      {statements : List Stmt} {reason shown : Failure} {after : Machine} :
      move.read = .ok statements →
      1000 + 32 * move.settings.maxCallDepth ≤ Evaluation.mostStack →
      Evaluates move.settings.maxCallDepth
        (Evaluation.startSite move.settings.maxCallDepth Store.globalScope)
        (.stmts none statements) machine (.error reason after) →
      Move.Ends move machine (.error shown, after)
  | succeeded
      {statements : List Stmt} {last : Option Value} {after : Machine} :
      move.read = .ok statements →
      1000 + 32 * move.settings.maxCallDepth ≤ Evaluation.mostStack →
      Evaluates move.settings.maxCallDepth
        (Evaluation.startSite move.settings.maxCallDepth Store.globalScope)
        (.stmts none statements) machine (.ok last after) →
      Move.Ends move machine (.ok last, after)

theorem Move.Ends.withSource
    {move : Move} {machine : Machine} {result : Except Failure (Option Value) × Machine}
    (ends : move.Ends machine result)
    (source : Text) :
    move.Ends machine (withSource source result) := by
  cases ends with
  | stopped => exact .stopped
  | failed reads starts derivation => exact .failed reads starts derivation
  | succeeded reads starts derivation => exact .succeeded reads starts derivation

theorem Move.ends_executeRead (move : Move) (machine : Machine) :
    move.Ends machine (executeRead move.settings move.read machine) := by
  cases reads : move.read with
  | error failure => exact .stopped
  | ok statements =>
    have executed := Evaluation.executes_execute move.settings.maxCallDepth
      Store.globalScope statements machine
    show move.Ends machine (outcome _ machine)
    unfold outcome
    generalize Evaluation.execute _ _ _ _ = ending at executed ⊢
    cases executed with
    | refused => exact .stopped
    | evaluated starts derivation =>
      cases ending with
      | ok last after => exact .succeeded reads starts derivation
      | error reason after => exact .failed reads starts derivation

theorem Move.ends_perform (move : Move) (machine : Machine) :
    move.Ends machine (move.perform machine) := by
  cases move with
  | execute settings program => exact ends_executeRead (.execute settings program) machine
  | step asked =>
    have ends := (ends_executeRead (.step asked) machine).withSource asked.source
    have performed : asked.perform machine =
        Session.withSource asked.source (executeRead asked.settings asked.read machine) := by
      unfold Step.perform Step.read
      split <;> rfl
    rw [Move.perform, performed]
    exact ends

section

variable {holds : Node → Prop} {machine : Machine}
variable {moves : List Move} {limit : Nat} {call : Call}

/-- The predicate holds of the statements that a move reads. -/
def Move.Carries (holds : Node → Prop) (move : Move) : Prop :=
  ∀ statements, move.read = .ok statements → ∀ stmt ∈ statements, holds (.stmt stmt)

/-- A move makes functions of the syntax that it reads and of that of earlier functions. -/
theorem Move.Carries.perform
    {move : Move}
    (carries : move.Carries holds)
    (inherited : Node.Inherited holds)
    (store : machine.store.Carries holds) :
    (move.perform machine).2.store.Carries holds := by
  have ends := move.ends_perform machine
  generalize move.perform machine = result at ends ⊢
  cases ends with
  | stopped => exact store
  | failed reads _ derivation | succeeded reads _ derivation =>
    exact derivation.carries inherited ⟨carries _ reads, store⟩

/-- All functions of a session are made of syntax that its moves read. -/
theorem play_carries
    (inherited : Node.Inherited holds)
    (reads : ∀ move ∈ moves, move.Carries holds)
    (store : machine.store.Carries holds) :
    (play moves machine).store.Carries holds := by
  induction moves generalizing machine with
  | nil => exact store
  | cons move rest hypothesis =>
    obtain ⟨first, later⟩ := List.forall_mem_cons.mp reads
    exact hypothesis later (first.perform inherited store)

/-- All the syntax that is evaluated in a session is syntax that its moves read. -/
theorem Occurs.carries
    (occurs : Occurs machine moves limit call)
    (inherited : Node.Inherited holds)
    (reads : ∀ move ∈ moves, move.Carries holds)
    (store : machine.store.Carries holds) :
    call.Carries holds := by
  induction occurs with
  | now read _ within =>
    have carries := reads _ (List.mem_cons_self ..) _ read
    exact Evaluation.Within.carries within inherited ⟨carries, store⟩
  | later _ hypothesis =>
    obtain ⟨first, later⟩ := List.forall_mem_cons.mp reads
    exact hypothesis later (first.perform inherited store)

/-- What takes place within an evaluation of the moves takes place in them. -/
theorem Occurs.within
    {inner : Call}
    (occurs : Occurs machine moves limit call)
    (within : Evaluation.Within limit call inner) :
    Occurs machine moves limit inner := by
  induction occurs with
  | now reads starts around => exact .now reads starts (around.trans within)
  | later _ hypothesis => exact .later (hypothesis within)

/-- What takes place in moves takes place in them and further ones. -/
theorem Occurs.append (occurs : Occurs machine moves limit call) (more : List Move) :
    Occurs machine (moves ++ more) limit call := by
  induction occurs with
  | now reads starts within => exact .now reads starts within
  | later _ hypothesis => exact .later hypothesis

/-- What takes place in further moves takes place in the whole session. -/
theorem Occurs.behind
    {earlier moves : List Move} {limit : Nat} {call : Call}
    (occurs : Occurs (play earlier machine) moves limit call) :
    Occurs machine (earlier ++ moves) limit call := by
  induction earlier generalizing machine with
  | nil => exact occurs
  | cons move rest hypothesis => exact .later (hypothesis occurs)

/-- A function is called where a call is evaluated. -/
theorem Occurs.call_of_apply
    {site : Site} {span : Span} {name : Text} {callee : Value}
    {arguments : List Value} {before : Machine}
    (occurs : Occurs machine moves limit ⟨_, site, .apply span name callee arguments, before⟩) :
    ∃ root roots outer,
      Occurs machine moves limit ⟨_, site, .expr (.call span root roots), outer⟩ := by
  generalize same : (⟨_, site, .apply span name callee arguments, before⟩ : Call) = call at occurs
  induction occurs with
  | now reads starts within =>
    subst same
    obtain ⟨root, roots, outer, around⟩ := Evaluation.Within.call_of_apply within
    exact ⟨root, roots, outer, .now reads starts around⟩
  | later _ hypothesis =>
    obtain ⟨root, roots, outer, occurs⟩ := hypothesis same
    exact ⟨root, roots, outer, .later occurs⟩

theorem start_carries : start.store.Carries holds := by
  intro index closure found
  cases found

end

/-- What a step reads comes from its source, and what it refuses is refused at a place of its
source. -/
theorem Step.read_from (step : Step) :
    Meets
      (fun statements => ∀ stmt ∈ statements,
        stmt.From (.ofSource step.settings.file step.source))
      (Failure.From (.ofSource step.settings.file step.source) step.source.lines) step.read := by
  unfold Step.read
  split
  · exact Stmt.ofSource_from step.settings.file step.source
  · have drawn := Program.ofSource_from step.settings.file step.source
    cases result : Program.ofSource step.settings.file step.source with
    | error failure =>
      rw [result] at drawn
      exact drawn
    | ok program =>
      rw [result] at drawn
      exact drawn

end Session

end Offside
