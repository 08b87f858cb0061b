import Offside.Proofs.Evaluation.Termination
import Offside.Run.Session

namespace Offside.Evaluation

/-!
# Raising the limit of the call depth

The limit is compared with the depth at every call and decides nothing else, the room on
the host stack apart, which only grows with it.  So a derivation under one limit is a
derivation under every higher one, unless it ends in a stack overflow.
-/

namespace Ending

/-- The failure of an ending. -/
def failure? {α : Type} : Ending α → Option Failure
  | .ok _ _ => none
  | .error reason _ => some reason

/-- Whether an ending is a stack overflow, by the code of its fault. -/
def Overflows {α : Type} (ending : Ending α) : Prop :=
  ∃ fault, failure? ending = some (.fault fault) ∧ fault.cause.code = "E407"

theorem not_overflows_ok {α : Type} {value : α} {after : Machine} :
    ¬ Overflows (.ok value after) := by
  rintro ⟨fault, failed, _⟩
  cases failed

theorem overflows_fail {α : Type} (span : Option Span) (limit : Nat) (machine : Machine) :
    Overflows ((Action.fail span (.stackOverflow limit) : Action α) machine) :=
  ⟨_, rfl, rfl⟩

theorem overflows_leave {α : Type} {ending : Ending α} (overflows : Overflows ending) :
    Overflows (leave ending) := by
  obtain ⟨fault, failed, code⟩ := overflows
  cases ending with
  | ok value after => cases failed
  | error reason after => exact ⟨fault, failed, code⟩

end Ending

/-- What is derivable without a stack overflow stays derivable under a higher limit and with
more room on the host stack. -/
theorem Evaluates.raise
    {lower higher : Nat}
    (raised : lower ≤ higher)
    {shape : Shape} {site : Site} {task : Task shape} {machine : Machine}
    {ending : Ending shape.Answer}
    (derivation : Evaluates lower site task machine ending)
    (within : ¬ Ending.Overflows ending)
    {room : Nat}
    (more : site.room ≤ room) :
    Evaluates higher ⟨site.scope, room⟩ task machine ending := by
  have fine {α : Type} {value : α} {after : Machine} :
      ¬ Ending.Overflows (.ok value after) := Ending.not_overflows_ok
  -- What is left of more room, after levels are taken, is still more.
  have less {site : Site} {room : Nat} (levels : Nat) (more : site.room ≤ room) :
      (site.inside levels).room ≤ room - levels := Nat.sub_le_sub_right more levels
  induction derivation generalizing room with
  | int => exact .int
  | float => exact .float
  | string => exact .string
  | char => exact .char
  | bool => exact .bool
  | array _ elements => exact .array (elements fine (less 2 more))
  | arrayFails _ elements => exact .arrayFails (elements within (less 2 more))
  | set _ elements => exact .set (elements fine (less 2 more))
  | setFails _ elements => exact .setFails (elements within (less 2 more))
  | map _ pairs => exact .map (pairs fine (less 2 more))
  | mapFails _ pairs => exact .mapFails (pairs within (less 2 more))
  | identifier => exact .identifier
  | binary _ _ left right => exact .binary (left fine (less 2 more)) (right fine (less 2 more))
  | leftFails _ left => exact .leftFails (left within (less 2 more))
  | rightFails _ _ left right =>
    exact .rightFails (left fine (less 2 more)) (right within (less 2 more))
  | function => exact .function
  | calleeFails _ callee => exact .calleeFails (callee within (less 2 more))
  | notCallable _ inert callee => exact .notCallable (callee fine (less 2 more)) inert
  | argumentsFail _ callable _ callee arguments =>
    exact .argumentsFail (callee fine (less 2 more)) callable (arguments within (less 3 more))
  | call _ callable _ _ callee arguments applied =>
    exact .call (callee fine (less 2 more)) callable (arguments fine (less 3 more))
      (applied within more)
  | targetFails _ target => exact .targetFails (target within (less 2 more))
  | keyFails _ _ target key =>
    exact .keyFails (target fine (less 2 more)) (key within (less 2 more))
  | index _ _ target key => exact .index (target fine (less 2 more)) (key fine (less 2 more))
  | blockFails _ statements => exact .blockFails (statements within (less 2 more))
  | block _ statements => exact .block (statements fine (less 2 more))
  | emptyBlock _ statements => exact .emptyBlock (statements fine (less 2 more))
  | noExprs => exact .noExprs
  | exprs _ _ first rest => exact .exprs (first fine more) (rest fine more)
  | firstExprFails _ first => exact .firstExprFails (first within more)
  | laterExprFails _ _ first rest => exact .laterExprFails (first fine more) (rest within more)
  | noMembers => exact .noMembers
  | memberFails _ first => exact .memberFails (first within more)
  | members _ _ first rest => exact .members (first fine more) (rest within more)
  | noEntries => exact .noEntries
  | entryKeyFails _ key => exact .entryKeyFails (key within more)
  | entryValueFails _ _ key value => exact .entryValueFails (key fine more) (value within more)
  | duplicateKey _ _ taken key value =>
    exact .duplicateKey (key fine more) (value fine more) taken
  | entries _ _ vacant _ key value rest =>
    exact .entries (key fine more) (value fine more) vacant (rest within more)
  | functionRefused isFunction refused => exact .functionRefused isFunction refused
  | functionFails isFunction defined _ value =>
    exact .functionFails isFunction defined (value within (less 2 more))
  | functionBinding isFunction defined _ value =>
    exact .functionBinding isFunction defined (value fine (less 2 more))
  | bindingFails notFunction _ value =>
    exact .bindingFails notFunction (value within (less 2 more))
  | binding notFunction _ value => exact .binding notFunction (value fine (less 2 more))
  | assignmentFails _ value => exact .assignmentFails (value within (less 1 more))
  | assignment _ value => exact .assignment (value fine (less 1 more))
  | expression _ value => exact .expression (value within (less 1 more))
  | noStmts => exact .noStmts
  | stmtFails _ first => exact .stmtFails (first within more)
  | stmts _ _ first rest => exact .stmts (first fine more) (rest within more)
  | overflow | stmtOverflow => exact (within (Ending.overflows_fail _ _ _)).elim
  | visit fits _ root => exact .visit (fits.trans more) (root within more)
  | visitStmt fits _ root => exact .visitStmt (fits.trans more) (root within more)
  | applyOther inert => exact .applyOther inert
  | applyBuiltin => exact .applyBuiltin
  | applyMissing missing => exact .applyMissing missing
  | applyArity found unfitting => exact .applyArity found unfitting
  | applyRefused => exact (within (Ending.overflows_fail _ _ _)).elim
  | parametersFail found fitting below bound =>
    exact .parametersFail found fitting (below.trans_le raised) bound
  | applyClosure found fitting below bound _ body =>
    exact .applyClosure found fitting (below.trans_le raised) bound
      (body (fun overflows => within (Ending.overflows_leave overflows)) (less 3 more))

/-- Raising the limit of the call depth never changes an answer: an execution that ends
with a value, or with another failure than a stack overflow, ends with the same value or
failure and on the same machine under every higher limit for which it starts. -/
theorem execute_raise
    {lower higher : Nat}
    (raised : lower ≤ higher)
    (starts : 1000 + 32 * higher ≤ mostStack)
    (scope : Scope)
    (statements : List Stmt)
    (machine : Machine)
    (within : ∀ fault after,
      execute lower scope statements machine = .error (.fault fault) after →
        fault.cause.code ≠ "E407") :
    execute higher scope statements machine = execute lower scope statements machine := by
  have lowerStarts : 1000 + 32 * lower ≤ mostStack := by omega
  have derivation :
      Evaluates lower (startSite lower scope) (.stmts none statements) machine
        (execute lower scope statements machine) :=
    evaluates_iff_run.mpr (execute_of_starts lowerStarts scope statements machine).symm
  have noOverflow : ¬ Ending.Overflows (execute lower scope statements machine) := by
    rintro ⟨fault, failed, code⟩
    cases ran : execute lower scope statements machine with
    | ok value after =>
      rw [ran] at failed
      cases failed
    | error reason after =>
      rw [ran] at failed
      cases failed
      exact within fault after ran code
  have moreRoom : (startSite lower scope).room ≤ hostRoom + 32 * higher :=
    Nat.add_le_add_left (Nat.mul_le_mul_left 32 raised) hostRoom
  rw [execute_of_starts starts]
  exact (derivation.raise raised noOverflow moreRoom).run

/-- Two functions, the second of which calls the first, and a call of the second. -/
def nestedCalls : List Stmt :=
  let span : Span := ⟨none, .origin, .origin⟩
  let first : Text := [.scalar 'f']
  let second : Text := [.scalar 'g']
  let parameter : Text := [.scalar 'x']
  [.binding span false first (.function span [parameter] (.identifier span parameter)),
   .binding span false second
     (.function span [parameter]
       (.call span (.identifier span first) [.identifier span parameter])),
   .expression span (.call span (.identifier span second) [.int span 7])]

/-- A call two levels deep has the same answer under the limits 2 and 128. -/
theorem execute_raise_nestedCalls :
    (∃ after, execute 2 Store.globalScope nestedCalls Session.start =
        .ok (some (.int 7)) after) ∧
      execute 128 Store.globalScope nestedCalls Session.start =
        execute 2 Store.globalScope nestedCalls Session.start := by
  have answer : ∃ after, execute 2 Store.globalScope nestedCalls Session.start =
      .ok (some (.int 7)) after := ⟨_, rfl⟩
  refine ⟨answer, execute_raise (by decide) (by decide) _ _ _ ?_⟩
  intro fault after failed
  obtain ⟨reached, ran⟩ := answer
  rw [ran] at failed
  cases failed

end Offside.Evaluation
