import Offside.Proofs.Evaluation.Quiet

namespace Offside.Evaluation

variable {limit : Nat}

/-!
# The evaluator computes what is derivable

The evaluator takes what is left of the call depth as an argument; a derivation compares
the depth of the machine with the limit at every call.  Both agree because an
evaluation ends at the depth at which it starts.
-/

/-- A task as the evaluator carries it out. -/
def Task.run (limit : Nat) (enter : Enter) (site : Site) :
    {shape : Shape} → Task shape → Action shape.Answer
  | _, .expr root => Evaluation.expr limit enter site root
  | _, .exprs roots => Evaluation.exprs limit enter site roots
  | _, .members known roots => Evaluation.members limit enter site known roots
  | _, .entries known roots => Evaluation.entries limit enter site known roots
  | _, .stmt root => Evaluation.stmt limit enter site root
  | _, .stmts last roots => Evaluation.stmts limit enter site last roots
  | _, .visit root => reaching limit site root.reach (Evaluation.expr limit enter · root)
  | _, .visitStmt root => reaching limit site root.reach (Evaluation.stmt limit enter · root)
  | _, .apply span name callee arguments =>
      callValue limit enter site span name callee arguments

variable {shape : Shape} {site : Site} {task : Task shape} {machine after : Machine}

/-- An evaluation ends at the call depth at which it starts, also when it fails. -/
theorem Evaluates.depth
    {ending : Ending shape.Answer}
    (derivation : Evaluates limit site task machine ending) :
    (Ending.machine ending).depth = machine.depth := by
  induction derivation with
  | int | string | char | bool | function | noExprs | noMembers | noEntries | noStmts
  | overflow | stmtOverflow | applyOther | applyMissing | applyArity | applyRefused => rfl
  | float => exact (Action.Quiet.addFloat _ _).depth
  | identifier => exact (Action.Quiet.check _ _ _).depth
  | array _ partDepth | set _ partDepth | map _ partDepth | arrayFails _ partDepth
  | setFails _ partDepth | mapFails _ partDepth | leftFails _ partDepth
  | calleeFails _ partDepth | notCallable _ _ partDepth | targetFails _ partDepth
  | blockFails _ partDepth | block _ partDepth | emptyBlock _ partDepth
  | firstExprFails _ partDepth | memberFails _ partDepth | entryKeyFails _ partDepth
  | bindingFails _ _ partDepth | assignmentFails _ partDepth | expression _ partDepth
  | stmtFails _ partDepth | visit _ _ partDepth | visitStmt _ _ partDepth => exact partDepth
  | rightFails _ _ firstDepth secondDepth | argumentsFail _ _ _ firstDepth secondDepth
  | keyFails _ _ firstDepth secondDepth | exprs _ _ firstDepth secondDepth
  | laterExprFails _ _ firstDepth secondDepth | members _ _ firstDepth secondDepth
  | entryValueFails _ _ firstDepth secondDepth | duplicateKey _ _ _ firstDepth secondDepth
  | stmts _ _ firstDepth secondDepth => exact secondDepth.trans firstDepth
  | binary _ _ firstDepth secondDepth =>
    exact (Action.Quiet.operator _ _ _ _ _).depth.trans (secondDepth.trans firstDepth)
  | index _ _ firstDepth secondDepth =>
    exact (Action.Quiet.check _ _ _).depth.trans (secondDepth.trans firstDepth)
  | call _ _ _ _ firstDepth secondDepth thirdDepth
  | entries _ _ _ _ firstDepth secondDepth thirdDepth =>
    exact thirdDepth.trans (secondDepth.trans firstDepth)
  | functionRefused _ refused => exact ((Action.Quiet.define _ _ _ _).ends refused).depth
  | functionFails _ defined _ partDepth | functionBinding _ defined _ partDepth =>
    exact partDepth.trans ((Action.Quiet.define _ _ _ _).depth_ok defined)
  | binding _ _ partDepth =>
    exact (Action.Quiet.bind (.define _ _ _ _) (fun _ => .pure _) _).depth.trans partDepth
  | assignment _ partDepth =>
    exact (Action.Quiet.bind (.assign _ _ _ _) (fun _ => .pure _) _).depth.trans partDepth
  | applyBuiltin => exact callBuiltin_depth _ _ _ _ _
  | parametersFail _ _ _ bound =>
    exact ((Action.Quiet.bindParameters _ _).ends bound).depth
  | applyClosure _ _ _ bound _ bodyDepth =>
    rw [Ending.machine_leave, bodyDepth]
    exact ((Action.Quiet.bindParameters _ _).ends bound).depth

/-- The next part of an evaluation starts at the depth of the one before. -/
theorem Evaluates.depth_ok
    {answer : shape.Answer}
    (derivation : Evaluates limit site task machine (.ok answer after)) :
    after.depth = machine.depth :=
  derivation.depth

/-- Where the host stack has no room, nothing is evaluated. -/
theorem reaching_of_lt
    {levels : Nat}
    (short : site.room < levels)
    (action : Site → Action Value) :
    reaching limit site levels action = Action.fail none (.stackOverflow limit) :=
  if_pos short

theorem reaching_of_le
    {levels : Nat}
    (fits : levels ≤ site.room)
    (action : Site → Action Value) :
    reaching limit site levels action = action site :=
  if_neg (Nat.not_lt.mpr fits)

/-- With call depth left, a function body is an expression one level deeper. -/
theorem enterWith_of_lt {depth : Nat} (within : depth < limit) :
    enterWith limit (limit - depth) =
      some fun site body =>
        reaching limit site body.reach
          (expr limit (enterWith limit (limit - (depth + 1))) · body) := by
  have left : limit - depth = (limit - (depth + 1)) + 1 := by omega
  rw [left, enterWith]

/-- Without call depth left, no function body is evaluated. -/
theorem enterWith_of_le {depth : Nat} (reached : limit ≤ depth) :
    enterWith limit (limit - depth) = none := by
  rw [Nat.sub_eq_zero_of_le reached, enterWith]

/-- A call with the right number of arguments and depth left evaluates the body in a new
frame. -/
theorem callClosure_run
    {evaluate : Site → Expr → Action Value} {closure : Closure}
    {arguments : List Value}
    (fitting : arguments.length = closure.parameters.length)
    (site : Site)
    (span : Span)
    (name : Text)
    (machine : Machine) :
    callClosure limit (some evaluate) site span name closure arguments machine =
      (bindParameters (machine.store.frames.size :: closure.scope)
          (closure.parameters.zip arguments) >>= fun _ =>
        Action.deeper
          (evaluate ⟨machine.store.frames.size :: closure.scope, site.room - 3⟩ closure.body))
        ⟨(machine.store.addFrame name).2, machine.depth⟩ := by
  unfold callClosure
  rw [if_neg (not_not_intro fitting)]
  rfl

/-- The evaluator ends the way that a derivation says. -/
theorem Evaluates.run
    {ending : Ending shape.Answer}
    (derivation : Evaluates limit site task machine ending) :
    task.run limit (enterWith limit (limit - machine.depth)) site machine = ending := by
  induction derivation with
  | int | float | string | char | bool | function | noExprs | noMembers | noEntries
  | noStmts | applyBuiltin => rfl
  | array _ partRun | set _ partRun | map _ partRun => exact Action.bind_of_ok partRun
  | arrayFails _ partRun | setFails _ partRun | mapFails _ partRun =>
    exact Action.bind_of_error partRun
  | identifier => exact Action.store_bind_run _ _
  | leftFails _ leftRun => exact Action.bind_of_error leftRun
  | rightFails left _ leftRun rightRun =>
    rw [left.depth_ok] at rightRun
    exact (Action.bind_of_ok leftRun).trans (Action.bind_of_error rightRun)
  | binary left _ leftRun rightRun =>
    rw [left.depth_ok] at rightRun
    exact (Action.bind_of_ok leftRun).trans (Action.bind_of_ok rightRun)
  | calleeFails _ calleeRun => exact Action.bind_of_error calleeRun
  | notCallable _ inert calleeRun =>
    refine (Action.bind_of_ok calleeRun).trans ?_
    rw [if_neg (by simp [inert])]
  | argumentsFail callee callable _ calleeRun argumentsRun =>
    rw [callee.depth_ok] at argumentsRun
    refine (Action.bind_of_ok calleeRun).trans ?_
    rw [if_pos callable]
    exact Action.bind_of_error argumentsRun
  | call callee callable arguments _ calleeRun argumentsRun applyRun =>
    rw [arguments.depth_ok, callee.depth_ok] at applyRun
    rw [callee.depth_ok] at argumentsRun
    refine (Action.bind_of_ok calleeRun).trans ?_
    rw [if_pos callable]
    exact (Action.bind_of_ok argumentsRun).trans applyRun
  | targetFails _ targetRun => exact Action.bind_of_error targetRun
  | keyFails target _ targetRun keyRun =>
    rw [target.depth_ok] at keyRun
    exact (Action.bind_of_ok targetRun).trans (Action.bind_of_error keyRun)
  | index target _ targetRun keyRun =>
    rw [target.depth_ok] at keyRun
    refine (Action.bind_of_ok targetRun).trans ((Action.bind_of_ok keyRun).trans ?_)
    exact Action.store_bind_run _ _
  | blockFails _ bodyRun =>
    exact (Action.bind_of_ok (Action.add_run _ _)).trans (Action.bind_of_error bodyRun)
  | block _ bodyRun | emptyBlock _ bodyRun =>
    exact (Action.bind_of_ok (Action.add_run _ _)).trans (Action.bind_of_ok bodyRun)
  | exprs first _ firstRun restRun =>
    rw [first.depth_ok] at restRun
    exact (Action.bind_of_ok firstRun).trans (Action.bind_of_ok restRun)
  | firstExprFails _ firstRun => exact Action.bind_of_error firstRun
  | laterExprFails first _ firstRun restRun =>
    rw [first.depth_ok] at restRun
    exact (Action.bind_of_ok firstRun).trans (Action.bind_of_error restRun)
  | memberFails _ firstRun => exact Action.bind_of_error firstRun
  | members first _ firstRun restRun =>
    rw [first.depth_ok] at restRun
    refine (Action.bind_of_ok firstRun).trans ?_
    exact (Action.store_bind_run _ _).trans restRun
  | entryKeyFails _ keyRun => exact Action.bind_of_error keyRun
  | entryValueFails key _ keyRun valueRun =>
    rw [key.depth_ok] at valueRun
    exact (Action.bind_of_ok keyRun).trans (Action.bind_of_error valueRun)
  | duplicateKey key _ taken keyRun valueRun =>
    rw [key.depth_ok] at valueRun
    refine (Action.bind_of_ok keyRun).trans ((Action.bind_of_ok valueRun).trans ?_)
    rw [Action.store_bind_run, if_pos taken]
  | entries key value vacant _ keyRun valueRun restRun =>
    rw [value.depth_ok, key.depth_ok] at restRun
    rw [key.depth_ok] at valueRun
    refine (Action.bind_of_ok keyRun).trans ((Action.bind_of_ok valueRun).trans ?_)
    rw [Action.store_bind_run, if_neg (by simp [vacant])]
    exact restRun
  | functionRefused isFunction refused =>
    rw [Task.run, stmt, if_pos isFunction]
    exact Action.bind_of_error refused
  | functionFails isFunction defined _ valueRun =>
    rw [(Action.Quiet.define _ _ _ _).depth_ok defined] at valueRun
    rw [Task.run, stmt, if_pos isFunction]
    exact (Action.bind_of_ok defined).trans (Action.bind_of_error valueRun)
  | functionBinding isFunction defined _ valueRun =>
    rw [(Action.Quiet.define _ _ _ _).depth_ok defined] at valueRun
    rw [Task.run, stmt, if_pos isFunction]
    exact (Action.bind_of_ok defined).trans (Action.bind_of_ok valueRun)
  | bindingFails notFunction _ valueRun =>
    rw [Task.run, stmt, if_neg (by simp [notFunction])]
    exact Action.bind_of_error valueRun
  | binding notFunction _ valueRun =>
    rw [Task.run, stmt, if_neg (by simp [notFunction])]
    exact Action.bind_of_ok valueRun
  | assignmentFails _ valueRun => exact Action.bind_of_error valueRun
  | assignment _ valueRun => exact Action.bind_of_ok valueRun
  | expression _ valueRun => exact valueRun
  | stmtFails _ firstRun => exact Action.bind_of_error firstRun
  | stmts first _ firstRun restRun =>
    rw [first.depth_ok] at restRun
    exact (Action.bind_of_ok firstRun).trans restRun
  | overflow short | stmtOverflow short => rw [Task.run, reaching_of_lt short]
  | visit fits _ rootRun | visitStmt fits _ rootRun =>
    rw [Task.run, reaching_of_le fits]
    exact rootRun
  | @applyOther _ _ callee _ _ _ inert =>
    cases callee with
    | collection reference => rfl
    | closure index | builtin function => cases inert
    | int | float | str | char | bool => rfl
  | applyMissing missing =>
    rw [Task.run, callValue, Action.store_bind_run, missing]
  | applyArity found unfitting =>
    rw [Task.run, callValue, Action.store_bind_run, found]
    exact congrFun (if_pos unfitting) _
  | applyRefused found fitting reached =>
    rw [Task.run, callValue, Action.store_bind_run, found, enterWith_of_le reached]
    exact congrFun (if_neg (not_not_intro fitting)) _
  | parametersFail found fitting within bound =>
    rw [Task.run, callValue, Action.store_bind_run, found, enterWith_of_lt within]
    exact (callClosure_run fitting _ _ _ _).trans (Action.bind_of_error bound)
  | applyClosure found fitting within bound _ bodyRun =>
    have sameDepth := (Action.Quiet.bindParameters _ _).depth_ok bound
    rw [Task.run, callValue, Action.store_bind_run, found, enterWith_of_lt within]
    refine (callClosure_run fitting _ _ _ _).trans ((Action.bind_of_ok bound).trans ?_)
    rw [Action.deeper_run, ← sameDepth]
    exact congrArg Ending.leave bodyRun

/-- Executing statements is evaluating them in order, once the stack is reserved. -/
theorem execute_of_starts
    (starts : 1000 + 32 * limit ≤ mostStack)
    (scope : Scope)
    (statements : List Stmt)
    (machine : Machine) :
    execute limit scope statements machine =
      (Task.stmts none statements).run limit (enterWith limit (limit - machine.depth))
        (startSite limit scope) machine := by
  unfold execute executeAt
  rw [if_neg (Nat.not_lt.mpr starts)]
  rfl

end Offside.Evaluation
