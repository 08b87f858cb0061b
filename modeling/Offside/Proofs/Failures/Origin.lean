import Offside.Proofs.Evaluation.Effects

namespace Offside

/-!
# Where failures come from

An evaluation fails because one that it performs fails, or by a failure of its own, which is
one of a few.  So the failure of an evaluation is the own failure of an evaluation that takes
place within it.
-/

/-- A failure of an evaluation at a place. -/
def RuntimeCause.located (cause : RuntimeCause) (span : Span) : Failure :=
  .fault (.located (.runtime cause) span)

namespace Evaluation

/-- Why an action fails, if it does. -/
def Ending.reason? {α : Type} : Ending α → Option Failure
  | .ok _ _ => none
  | .error reason _ => some reason

@[simp] theorem Ending.reason?_leave {α : Type} (ending : Ending α) :
    reason? (leave ending) = reason? ending := by
  cases ending <;> rfl

/-- A check fails for its cause, at its place. -/
theorem Ending.cause_of_check
    {α : Type} {span : Span} {result : Except RuntimeCause α} {machine : Machine} {reason : Failure}
    (failed : reason? (Action.check (some span) result machine) = some reason) :
    ∃ cause, result = .error cause ∧ reason = cause.located span := by
  cases result with
  | ok value => cases failed
  | error cause =>
    cases failed
    exact ⟨cause, rfl, rfl⟩

/-- An action that is followed by its answer only fails itself. -/
theorem Ending.reason?_thenReturn
    {α β : Type}
    (action : Action α)
    (answer : β)
    (machine : Machine) :
    reason? ((do let _ ← action; return answer : Action β) machine) =
      reason? (action machine) := by
  cases ran : action machine with
  | ok value after => rw [Action.bind_of_ok ran]; rfl
  | error reason after => rw [Action.bind_of_error ran]; rfl

theorem Ending.exists_of_reason?
    {α : Type} {ending : Ending α} {reason : Failure}
    (failed : reason? ending = some reason) :
    ∃ after, ending = .error reason after := by
  cases ending with
  | ok value after => cases failed
  | error other after =>
    cases failed
    exact ⟨after, rfl⟩

/-- How an evaluation itself fails, when none of the evaluations that it performs does. -/
inductive Fails (limit : Nat) : (call : Call) → (reason : Failure) → Prop where
  | identifier
      {site : Site} {span : Span} {name : Text} {machine : Machine} {cause : RuntimeCause} :
      machine.store.lookup site name = .error cause →
      Fails limit ⟨_, site, .expr (.identifier span name), machine⟩ (cause.located span)
  | overflow
      {site : Site} {root : Expr} {machine : Machine} :
      site.room < root.reach →
      Fails limit ⟨_, site, .visit root, machine⟩ (hostOverflow limit)
  | stmtOverflow
      {site : Site} {root : Stmt} {machine : Machine} :
      site.room < root.reach →
      Fails limit ⟨_, site, .visitStmt root, machine⟩ (hostOverflow limit)
  | operator
      {site : Site} {span : Span} {left right : Expr} {operator : TokenKind}
      {machine between after last : Machine} {leftValue rightValue : Value} {reason : Failure} :
      Evaluates limit (site.inside 2) (.visit left) machine (.ok leftValue between) →
      Evaluates limit (site.inside 2) (.visit right) between (.ok rightValue after) →
      Operator.apply operator span leftValue rightValue after = .error reason last →
      Fails limit ⟨_, site, .expr (.binary span left operator right), machine⟩ reason
  | callee
      {site : Site} {span : Span} {callee : Expr} {value : Value} {arguments : List Expr}
      {machine after : Machine} :
      Evaluates limit (site.inside 2) (.visit callee) machine (.ok value after) →
      value.kind.isCallable = false →
      Fails limit ⟨_, site, .expr (.call span callee arguments), machine⟩
        (RuntimeCause.located (.notCallable value.kind) span)
  | index
      {site : Site} {span : Span} {target key : Expr} {machine between after : Machine}
      {targetValue keyValue : Value} {cause : RuntimeCause} :
      Evaluates limit (site.inside 2) (.visit target) machine (.ok targetValue between) →
      Evaluates limit (site.inside 2) (.visit key) between (.ok keyValue after) →
      Builtin.element "index" after.store targetValue keyValue = .error cause →
      Fails limit ⟨_, site, .expr (.index span target key), machine⟩ (cause.located span)
  | block
      {site : Site} {span : Span} {statements : List Stmt} {machine after : Machine} :
      Evaluates limit ((site.inside 2).enter machine.store.frames.size) (.stmts none statements)
        ⟨(machine.store.addFrame "block").2, machine.depth⟩ (.ok none after) →
      Fails limit ⟨_, site, .expr (.block span statements), machine⟩
        (RuntimeCause.located (.notEvaluable "Block") span)
  | entry
      {site : Site} {span : Span} {keyExpr valueExpr : Expr} {rest : List Entry}
      {name value : Value} {known : List MapEntry} {machine between after : Machine} :
      Evaluates limit site (.visit keyExpr) machine (.ok name between) →
      Evaluates limit site (.visit valueExpr) between (.ok value after) →
      (Store.entryAt? known (after.store.key name)).isSome = true →
      Fails limit ⟨_, site, .entries known (.pair span keyExpr valueExpr :: rest), machine⟩
        (RuntimeCause.located (.duplicateKey (after.store.displayNested name)) span)
  | functionBinding
      {site : Site} {span : Span} {mutable : Bool} {name : Text} {value : Expr}
      {machine : Machine} {cause : RuntimeCause} :
      value.isFunction = true →
      machine.store.bindingRefused? site name = some cause →
      Fails limit ⟨_, site, .stmt (.binding span mutable name value), machine⟩ (cause.located span)
  | binding
      {site : Site} {span : Span} {mutable : Bool} {name : Text} {value : Expr}
      {machine after : Machine} {result : Value} {cause : RuntimeCause} :
      value.isFunction = false →
      Evaluates limit (site.inside 2) (.visit value) machine (.ok result after) →
      after.store.bindingRefused? site name = some cause →
      Fails limit ⟨_, site, .stmt (.binding span mutable name value), machine⟩ (cause.located span)
  | assignment
      {site : Site} {span : Span} {target : Text} {value : Expr} {machine after : Machine}
      {result : Value} {cause : RuntimeCause} :
      Evaluates limit (site.inside 1) (.visit value) machine (.ok result after) →
      after.store.assignedFrame site target = .error cause →
      Fails limit ⟨_, site, .stmt (.assignment span target value), machine⟩ (cause.located span)
  | notCallable
      {site : Site} {span : Span} {callee : Value} {name : Text} {arguments : List Value}
      {machine : Machine} :
      Fails limit ⟨_, site, .apply span name callee arguments, machine⟩
        (RuntimeCause.located (.notCallable callee.kind) span)
  | arity
      {site : Site} {span : Span} {name : Text} {callee : Value} {expected : Nat}
      {arguments : List Value} {machine : Machine} :
      arguments.length ≠ expected →
      Fails limit ⟨_, site, .apply span name callee arguments, machine⟩
        (RuntimeCause.located (.arity name expected arguments.length) span)
  | builtin
      {site : Site} {span : Span} {name : Text} {function : Builtin}
      {arguments : List Value} {machine : Machine} {cause : RuntimeCause} :
      Builtin.apply machine.store function arguments = .error cause →
      Fails limit ⟨_, site, .apply span name (.builtin function) arguments, machine⟩
        (cause.located span)
  | depth
      {site : Site} {span : Span} {name : Text} {callee : Value} {arguments : List Value}
      {machine : Machine} :
      limit ≤ machine.depth →
      Fails limit ⟨_, site, .apply span name callee arguments, machine⟩
        (RuntimeCause.located (.stackOverflow limit) span)
  | parameters
      {site : Site} {span : Span} {name : Text} {index : Nat} {closure : Closure}
      {arguments : List Value} {machine after : Machine} {reason : Failure} :
      machine.store.closures[index]? = some closure →
      arguments.length = closure.parameters.length →
      bindParameters (machine.store.frames.size :: closure.scope)
        (closure.parameters.zip arguments)
        ⟨(machine.store.addFrame name).2, machine.depth⟩ = .error reason after →
      Fails limit ⟨_, site, .apply span name (.closure index) arguments, machine⟩ reason

/-- The failure is the own failure of an evaluation that takes place within another. -/
def FailsWithin (limit : Nat) (call : Call) (reason : Failure) : Prop :=
  ∃ inner, Within limit call inner ∧ Fails limit inner reason

section

variable {limit : Nat} {reason : Failure}

theorem Fails.within {call : Call} (fails : Fails limit call reason) :
    FailsWithin limit call reason :=
  ⟨call, .refl, fails⟩

theorem FailsWithin.outside
    {outer inner : Call}
    (fails : FailsWithin limit inner reason)
    (demanded : Demands limit outer inner)
    (passed : Passes limit outer inner) :
    FailsWithin limit outer reason := by
  obtain ⟨call, within, failed⟩ := fails
  exact ⟨call, .head ⟨demanded, passed⟩ within, failed⟩

/-- A builtin is refused for the number of its arguments, or fails. -/
theorem fails_of_callBuiltin
    {site : Site} {span : Span} {name : Text} {function : Builtin} {arguments : List Value}
    {machine : Machine}
    (failed : Ending.reason? (callBuiltin span name function arguments machine) = some reason) :
    Fails limit ⟨_, site, .apply span name (.builtin function) arguments, machine⟩ reason := by
  unfold callBuiltin at failed
  split at failed
  · rename_i different
    cases failed
    exact .arity different
  rw [Action.store_bind_run] at failed
  cases applied : Builtin.apply machine.store function arguments with
  | ok answer =>
    rw [applied] at failed
    cases failed
  | error cause =>
    rw [applied] at failed
    cases failed
    exact .builtin applied

/-- The failure of an evaluation is that of an evaluation within it. -/
theorem Evaluates.failsWithin
    {shape : Shape} {site : Site} {task : Task shape} {machine : Machine}
    {ending : Ending shape.Answer}
    (derivation : Evaluates limit site task machine ending)
    (failed : Ending.reason? ending = some reason) :
    FailsWithin limit ⟨_, site, task, machine⟩ reason := by
  induction derivation with
  | int | string | char | bool | noExprs | noStmts | noMembers | noEntries | float | function
  | array | set | map | block | exprs | functionBinding => cases failed
  | identifier =>
    obtain ⟨cause, unknown, rfl⟩ := Ending.cause_of_check failed
    exact (Fails.identifier unknown).within
  | overflow short =>
    cases failed
    exact (Fails.overflow short).within
  | stmtOverflow short =>
    cases failed
    exact (Fails.stmtOverflow short).within
  | binary leftEvaluated rightEvaluated =>
    obtain ⟨last, applied⟩ := Ending.exists_of_reason? failed
    exact (Fails.operator leftEvaluated rightEvaluated applied).within
  | arrayFails _ elements => exact (elements failed).outside .arrayElements trivial
  | setFails _ elements => exact (elements failed).outside .setElements trivial
  | mapFails _ pairs => exact (pairs failed).outside .mapEntries trivial
  | leftFails _ left => exact (left failed).outside .left trivial
  | rightFails leftEvaluated _ _ right =>
    exact (right failed).outside (.right leftEvaluated) trivial
  | calleeFails _ callee => exact (callee failed).outside .callee trivial
  | notCallable evaluated notCallable =>
    cases failed
    exact (Fails.callee evaluated notCallable).within
  | argumentsFail calleeEvaluated callable _ _ arguments =>
    exact (arguments failed).outside (.arguments calleeEvaluated)
      ⟨_, _, calleeEvaluated, callable⟩
  | call calleeEvaluated callable argumentsEvaluated _ _ _ applied =>
    exact (applied failed).outside (.apply calleeEvaluated argumentsEvaluated)
      ⟨_, _, calleeEvaluated, callable⟩
  | targetFails _ target => exact (target failed).outside .target trivial
  | keyFails targetEvaluated _ _ key => exact (key failed).outside (.key targetEvaluated) trivial
  | index targetEvaluated keyEvaluated =>
    obtain ⟨cause, missing, rfl⟩ := Ending.cause_of_check failed
    exact (Fails.index targetEvaluated keyEvaluated missing).within
  | blockFails _ statements => exact (statements failed).outside .block trivial
  | emptyBlock evaluated =>
    cases failed
    exact (Fails.block evaluated).within
  | firstExprFails _ first => exact (first failed).outside .firstExpr trivial
  | laterExprFails firstEvaluated _ _ rest =>
    exact (rest failed).outside (.restExprs firstEvaluated) trivial
  | memberFails _ first => exact (first failed).outside .firstMember trivial
  | members firstEvaluated _ _ rest =>
    exact (rest failed).outside (.restMembers firstEvaluated) trivial
  | entryKeyFails _ key => exact (key failed).outside .entryKey trivial
  | entryValueFails keyEvaluated _ _ value =>
    exact (value failed).outside (.entryValue keyEvaluated) trivial
  | duplicateKey keyEvaluated valueEvaluated occupied =>
    cases failed
    exact (Fails.entry keyEvaluated valueEvaluated occupied).within
  | entries keyEvaluated valueEvaluated vacant _ _ _ rest =>
    exact (rest failed).outside (.restEntries keyEvaluated valueEvaluated) ⟨_, rfl, vacant⟩
  | functionRefused isFunction refused =>
    cases failed
    obtain ⟨_, cause, known, rfl⟩ := Action.of_define_error refused
    exact (Fails.functionBinding isFunction known).within
  | functionFails isFunction defined _ value =>
    exact (value failed).outside (.boundFunction defined) (by simp [Passes, isFunction, defined])
  | bindingFails notFunction _ value =>
    exact (value failed).outside .boundValue (by simp [Passes, notFunction])
  | binding notFunction evaluated =>
    rw [Ending.reason?_thenReturn] at failed
    obtain ⟨later, refused⟩ := Ending.exists_of_reason? failed
    obtain ⟨_, cause, known, rfl⟩ := Action.of_define_error refused
    exact (Fails.binding notFunction evaluated known).within
  | assignmentFails _ value => exact (value failed).outside .assignedValue trivial
  | assignment evaluated =>
    rw [Ending.reason?_thenReturn] at failed
    obtain ⟨later, refused⟩ := Ending.exists_of_reason? failed
    obtain ⟨_, cause, known, rfl⟩ := Action.of_assign_error refused
    exact (Fails.assignment evaluated known).within
  | expression _ value => exact (value failed).outside .expression trivial
  | stmtFails _ first => exact (first failed).outside .firstStmt trivial
  | stmts firstEvaluated _ _ rest =>
    exact (rest failed).outside (.restStmts firstEvaluated) trivial
  | visit fits _ root => exact (root failed).outside (.visit fits) trivial
  | visitStmt fits _ root => exact (root failed).outside (.visitStmt fits) trivial
  | applyOther | applyMissing =>
    cases failed
    exact Fails.notCallable.within
  | applyBuiltin => exact (fails_of_callBuiltin failed).within
  | applyArity _ different =>
    cases failed
    exact (Fails.arity different).within
  | applyRefused _ _ full =>
    cases failed
    exact (Fails.depth full).within
  | parametersFail found fitting _ bound =>
    cases failed
    exact (Fails.parameters found fitting bound).within
  | applyClosure found fitting within bound _ body =>
    rw [Ending.reason?_leave] at failed
    exact (body failed).outside (.body found within bound) ⟨_, found, fitting⟩

end

end Evaluation

end Offside
