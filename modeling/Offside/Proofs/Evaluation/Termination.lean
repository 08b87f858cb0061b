import Mathlib.Order.WellFounded
import Offside.Proofs.Evaluation.Agreement

namespace Offside.Evaluation

/-!
# Every evaluation ends

An evaluation demands the evaluations of its parts, one after the other, and those of the
function bodies that it calls.  A part is smaller and starts at the same call depth.  A
body may be of any size, since it is found in the store, but it starts one level deeper
and never beyond the limit.  So no chain of demands goes on forever, whatever the
functions in the store refer to.
-/

/-- An evaluation that is about to start. -/
structure Call where
  shape : Shape
  site : Site
  task : Task shape
  machine : Machine

/-- Twice the size of the syntax that a task is about, a visit being one larger than what it
evaluates; a call has no size of its own. -/
noncomputable def Task.size : {shape : Shape} → Task shape → Nat
  | _, .expr root => 2 * sizeOf root
  | _, .exprs roots => 2 * sizeOf roots
  | _, .members _ roots => 2 * sizeOf roots
  | _, .entries _ roots => 2 * sizeOf roots
  | _, .stmt root => 2 * sizeOf root
  | _, .stmts _ roots => 2 * sizeOf roots
  | _, .visit root => 2 * sizeOf root + 1
  | _, .visitStmt root => 2 * sizeOf root + 1
  | _, .apply _ _ _ _ => 0

/-- The evaluation `inner` is one that `outer` needs next, once what `outer` evaluates
before it has succeeded. -/
inductive Demands (limit : Nat) : (outer inner : Call) → Prop where
  | arrayElements
      {site : Site} {span : Span} {elements : List Expr} {machine : Machine} :
      Demands limit ⟨_, site, .expr (.array span elements), machine⟩
        ⟨_, site.inside 2, .exprs elements, machine⟩
  | setElements
      {site : Site} {span : Span} {elements : List Expr} {machine : Machine} :
      Demands limit ⟨_, site, .expr (.set span elements), machine⟩
        ⟨_, site.inside 2, .members [] elements, machine⟩
  | mapEntries
      {site : Site} {span : Span} {pairs : List Entry} {machine : Machine} :
      Demands limit ⟨_, site, .expr (.map span pairs), machine⟩
        ⟨_, site.inside 2, .entries [] pairs, machine⟩
  | left
      {site : Site} {span : Span} {left right : Expr} {operator : TokenKind}
      {machine : Machine} :
      Demands limit ⟨_, site, .expr (.binary span left operator right), machine⟩
        ⟨_, site.inside 2, .visit left, machine⟩
  | right
      {site : Site} {span : Span} {left right : Expr} {operator : TokenKind}
      {machine between : Machine} {leftValue : Value} :
      Evaluates limit (site.inside 2) (.visit left) machine (.ok leftValue between) →
      Demands limit ⟨_, site, .expr (.binary span left operator right), machine⟩
        ⟨_, site.inside 2, .visit right, between⟩
  | callee
      {site : Site} {span : Span} {callee : Expr} {arguments : List Expr}
      {machine : Machine} :
      Demands limit ⟨_, site, .expr (.call span callee arguments), machine⟩
        ⟨_, site.inside 2, .visit callee, machine⟩
  | arguments
      {site : Site} {span : Span} {callee : Expr} {arguments : List Expr}
      {machine between : Machine} {value : Value} :
      Evaluates limit (site.inside 2) (.visit callee) machine (.ok value between) →
      Demands limit ⟨_, site, .expr (.call span callee arguments), machine⟩
        ⟨_, site.inside 3, .exprs arguments, between⟩
  | apply
      {site : Site} {span : Span} {callee : Expr} {arguments : List Expr}
      {machine between after : Machine} {value : Value} {values : List Value} :
      Evaluates limit (site.inside 2) (.visit callee) machine (.ok value between) →
      Evaluates limit (site.inside 3) (.exprs arguments) between (.ok values after) →
      Demands limit ⟨_, site, .expr (.call span callee arguments), machine⟩
        ⟨_, site, .apply span (calleeName callee value) value values, after⟩
  | target
      {site : Site} {span : Span} {target key : Expr} {machine : Machine} :
      Demands limit ⟨_, site, .expr (.index span target key), machine⟩
        ⟨_, site.inside 2, .visit target, machine⟩
  | key
      {site : Site} {span : Span} {target key : Expr} {machine between : Machine}
      {targetValue : Value} :
      Evaluates limit (site.inside 2) (.visit target) machine (.ok targetValue between) →
      Demands limit ⟨_, site, .expr (.index span target key), machine⟩
        ⟨_, site.inside 2, .visit key, between⟩
  | block
      {site : Site} {span : Span} {statements : List Stmt} {machine : Machine} :
      Demands limit ⟨_, site, .expr (.block span statements), machine⟩
        ⟨_, (site.inside 2).enter machine.store.frames.size, .stmts none statements,
          ⟨(machine.store.addFrame "block").2, machine.depth⟩⟩
  | firstExpr
      {site : Site} {first : Expr} {rest : List Expr} {machine : Machine} :
      Demands limit ⟨_, site, .exprs (first :: rest), machine⟩
        ⟨_, site, .visit first, machine⟩
  | restExprs
      {site : Site} {first : Expr} {rest : List Expr} {machine between : Machine}
      {value : Value} :
      Evaluates limit site (.visit first) machine (.ok value between) →
      Demands limit ⟨_, site, .exprs (first :: rest), machine⟩
        ⟨_, site, .exprs rest, between⟩
  | firstMember
      {site : Site} {first : Expr} {rest : List Expr} {known : List SetEntry}
      {machine : Machine} :
      Demands limit ⟨_, site, .members known (first :: rest), machine⟩
        ⟨_, site, .visit first, machine⟩
  | restMembers
      {site : Site} {first : Expr} {rest : List Expr} {known : List SetEntry}
      {machine between : Machine} {value : Value} :
      Evaluates limit site (.visit first) machine (.ok value between) →
      Demands limit ⟨_, site, .members known (first :: rest), machine⟩
        ⟨_, site, .members (Store.adjoin known ⟨between.store.key value, value⟩) rest,
          between⟩
  | entryKey
      {site : Site} {span : Span} {keyExpr valueExpr : Expr} {rest : List Entry}
      {known : List MapEntry} {machine : Machine} :
      Demands limit ⟨_, site, .entries known (.pair span keyExpr valueExpr :: rest), machine⟩
        ⟨_, site, .visit keyExpr, machine⟩
  | entryValue
      {site : Site} {span : Span} {keyExpr valueExpr : Expr} {rest : List Entry}
      {known : List MapEntry} {machine between : Machine} {name : Value} :
      Evaluates limit site (.visit keyExpr) machine (.ok name between) →
      Demands limit ⟨_, site, .entries known (.pair span keyExpr valueExpr :: rest), machine⟩
        ⟨_, site, .visit valueExpr, between⟩
  | restEntries
      {site : Site} {span : Span} {keyExpr valueExpr : Expr} {rest : List Entry}
      {known : List MapEntry} {machine between after : Machine} {name value : Value} :
      Evaluates limit site (.visit keyExpr) machine (.ok name between) →
      Evaluates limit site (.visit valueExpr) between (.ok value after) →
      Demands limit ⟨_, site, .entries known (.pair span keyExpr valueExpr :: rest), machine⟩
        ⟨_, site, .entries (known ++ [⟨after.store.key name, name, value⟩]) rest, after⟩
  | boundFunction
      {site : Site} {span : Span} {mutable : Bool} {name : Text} {value : Expr}
      {machine between : Machine} :
      Action.define (some span) site name ⟨none, mutable⟩ machine = .ok () between →
      Demands limit ⟨_, site, .stmt (.binding span mutable name value), machine⟩
        ⟨_, site.inside 2, .visit value, between⟩
  | boundValue
      {site : Site} {span : Span} {mutable : Bool} {name : Text} {value : Expr}
      {machine : Machine} :
      Demands limit ⟨_, site, .stmt (.binding span mutable name value), machine⟩
        ⟨_, site.inside 2, .visit value, machine⟩
  | assignedValue
      {site : Site} {span : Span} {target : Text} {value : Expr} {machine : Machine} :
      Demands limit ⟨_, site, .stmt (.assignment span target value), machine⟩
        ⟨_, site.inside 1, .visit value, machine⟩
  | expression
      {site : Site} {span : Span} {value : Expr} {machine : Machine} :
      Demands limit ⟨_, site, .stmt (.expression span value), machine⟩
        ⟨_, site.inside 1, .visit value, machine⟩
  | firstStmt
      {site : Site} {first : Stmt} {rest : List Stmt} {last : Option Value}
      {machine : Machine} :
      Demands limit ⟨_, site, .stmts last (first :: rest), machine⟩
        ⟨_, site, .visitStmt first, machine⟩
  | restStmts
      {site : Site} {first : Stmt} {rest : List Stmt} {last : Option Value}
      {machine between : Machine} {value : Value} :
      Evaluates limit site (.visitStmt first) machine (.ok value between) →
      Demands limit ⟨_, site, .stmts last (first :: rest), machine⟩
        ⟨_, site, .stmts (some value) rest, between⟩
  | visit
      {site : Site} {root : Expr} {machine : Machine} :
      root.reach ≤ site.room →
      Demands limit ⟨_, site, .visit root, machine⟩ ⟨_, site, .expr root, machine⟩
  | visitStmt
      {site : Site} {root : Stmt} {machine : Machine} :
      root.reach ≤ site.room →
      Demands limit ⟨_, site, .visitStmt root, machine⟩ ⟨_, site, .stmt root, machine⟩
  | body
      {site : Site} {span : Span} {name : Text} {index : Nat} {closure : Closure}
      {arguments : List Value} {machine bound : Machine} :
      machine.store.closures[index]? = some closure →
      machine.depth < limit →
      bindParameters (machine.store.frames.size :: closure.scope)
        (closure.parameters.zip arguments)
        ⟨(machine.store.addFrame name).2, machine.depth⟩ = .ok () bound →
      Demands limit ⟨_, site, .apply span name (.closure index) arguments, machine⟩
        ⟨_, ⟨machine.store.frames.size :: closure.scope, site.room - 3⟩, .visit closure.body,
          ⟨bound.store, bound.depth + 1⟩⟩

/-- A demanded evaluation is of a smaller part at the same depth, or of a function body
one level deeper within the limit. -/
def Descends (limit : Nat) (outer inner : Call) : Prop :=
  (inner.machine.depth = outer.machine.depth ∧ inner.task.size < outer.task.size) ∨
    (inner.machine.depth = outer.machine.depth + 1 ∧ inner.machine.depth ≤ limit)

/-- Whether a task calls a value with evaluated arguments. -/
def Task.isCall : {shape : Shape} → Task shape → Bool
  | _, .apply _ _ _ _ => true
  | _, _ => false

/-- Only what a call demands starts one level deeper. -/
theorem Demands.depth {limit : Nat} {outer inner : Call} (demand : Demands limit outer inner) :
    inner.machine.depth = outer.machine.depth + outer.task.isCall.toNat := by
  cases demand with
  | arrayElements | setElements | mapEntries | left | callee | target | block | firstExpr
  | firstMember | entryKey | boundValue | assignedValue | expression | firstStmt | visit
  | visitStmt => rfl
  | right before | arguments before | key before | restExprs before | restMembers before
  | entryValue before | restStmts before => exact before.depth_ok
  | apply first second | restEntries first second => exact second.depth_ok.trans first.depth_ok
  | boundFunction defined => exact (Action.Quiet.define _ _ _ _).depth_ok defined
  | body found within bound =>
    have sameDepth := (Action.Quiet.bindParameters _ _).depth_ok bound
    exact congrArg (· + 1) sameDepth

/-- Every demand descends. -/
theorem Demands.descends {limit : Nat} {outer inner : Call} (demand : Demands limit outer inner) :
    Descends limit outer inner := by
  have depth := demand.depth
  cases demand with
  | body found within bound =>
    refine .inr ⟨depth, ?_⟩
    rw [depth]
    exact within
  | _ => exact .inl ⟨depth, by simp +arith [Task.size]⟩

/-- The call depth that is left, and then the size of the task, bound the demands. -/
noncomputable def Call.measure (limit : Nat) (call : Call) : Nat × Nat :=
  (limit - call.machine.depth, call.task.size)

/-- No chain of demands goes on forever. -/
theorem demands_wellFounded (limit : Nat) :
    WellFounded fun inner outer => Demands limit outer inner := by
  refine Subrelation.wf ?_
    (InvImage.wf (Call.measure limit)
      (WellFounded.prod_lex wellFounded_lt wellFounded_lt))
  intro inner outer demand
  rcases demand.descends with ⟨sameDepth, smaller⟩ | ⟨deeper, within⟩
  · have sameLeft : limit - inner.machine.depth = limit - outer.machine.depth := by
      rw [sameDepth]
    exact Prod.lex_def.mpr (.inr ⟨sameLeft, smaller⟩)
  · exact Prod.Lex.left _ _ (by omega)

/-- Whether an evaluation ends, with an answer or with a failure. -/
def Call.Finishes (limit : Nat) (call : Call) : Prop :=
  ∃ ending, Evaluates limit call.site call.task call.machine ending

section

variable {limit : Nat} {site : Site} {machine : Machine}

/-- An expression ends if the evaluations that it demands end. -/
theorem expr_finishes
    (root : Expr)
    (parts : ∀ inner, Demands limit ⟨_, site, .expr root, machine⟩ inner →
      inner.Finishes limit) :
    Call.Finishes limit ⟨_, site, .expr root, machine⟩ := by
  cases root with
  | int span number => exact ⟨_, .int⟩
  | float span number => exact ⟨_, .float⟩
  | string span text => exact ⟨_, .string⟩
  | char span code => exact ⟨_, .char⟩
  | bool span truth => exact ⟨_, .bool⟩
  | identifier span name => exact ⟨_, .identifier⟩
  | function span parameters body => exact ⟨_, .function⟩
  | array span elements =>
    obtain ⟨ending, evaluated⟩ := parts _ .arrayElements
    cases ending with
    | ok values after => exact ⟨_, .array evaluated⟩
    | error reason after => exact ⟨_, .arrayFails evaluated⟩
  | set span elements =>
    obtain ⟨ending, evaluated⟩ := parts _ .setElements
    cases ending with
    | ok gathered after => exact ⟨_, .set evaluated⟩
    | error reason after => exact ⟨_, .setFails evaluated⟩
  | map span pairs =>
    obtain ⟨ending, evaluated⟩ := parts _ .mapEntries
    cases ending with
    | ok gathered after => exact ⟨_, .map evaluated⟩
    | error reason after => exact ⟨_, .mapFails evaluated⟩
  | binary span left operator right =>
    obtain ⟨leftEnding, leftEvaluated⟩ := parts _ .left
    cases leftEnding with
    | error reason after => exact ⟨_, .leftFails leftEvaluated⟩
    | ok leftValue between =>
      obtain ⟨rightEnding, rightEvaluated⟩ := parts _ (.right leftEvaluated)
      cases rightEnding with
      | error reason after => exact ⟨_, .rightFails leftEvaluated rightEvaluated⟩
      | ok rightValue after => exact ⟨_, .binary leftEvaluated rightEvaluated⟩
  | call span callee arguments =>
    obtain ⟨calleeEnding, calleeEvaluated⟩ := parts _ .callee
    cases calleeEnding with
    | error reason after => exact ⟨_, .calleeFails calleeEvaluated⟩
    | ok value between =>
      cases callable : value.kind.isCallable with
      | false => exact ⟨_, .notCallable calleeEvaluated callable⟩
      | true =>
        obtain ⟨argumentsEnding, argumentsEvaluated⟩ :=
          parts _ (.arguments calleeEvaluated)
        cases argumentsEnding with
        | error reason after =>
          exact ⟨_, .argumentsFail calleeEvaluated callable argumentsEvaluated⟩
        | ok values after =>
          obtain ⟨ending, applied⟩ :=
            parts _ (.apply calleeEvaluated argumentsEvaluated)
          exact ⟨ending,
            .call calleeEvaluated callable argumentsEvaluated applied⟩
  | index span target key =>
    obtain ⟨targetEnding, targetEvaluated⟩ := parts _ .target
    cases targetEnding with
    | error reason after => exact ⟨_, .targetFails targetEvaluated⟩
    | ok targetValue between =>
      obtain ⟨keyEnding, keyEvaluated⟩ := parts _ (.key targetEvaluated)
      cases keyEnding with
      | error reason after => exact ⟨_, .keyFails targetEvaluated keyEvaluated⟩
      | ok keyValue after => exact ⟨_, .index targetEvaluated keyEvaluated⟩
  | block span statements =>
    obtain ⟨ending, evaluated⟩ := parts _ .block
    cases ending with
    | error reason after => exact ⟨_, .blockFails evaluated⟩
    | ok last after =>
      cases last with
      | none => exact ⟨_, .emptyBlock evaluated⟩
      | some value => exact ⟨_, .block evaluated⟩

/-- A list of expressions ends if the evaluations that it demands end. -/
theorem exprs_finishes
    (roots : List Expr)
    (parts : ∀ inner, Demands limit ⟨_, site, .exprs roots, machine⟩ inner →
      inner.Finishes limit) :
    Call.Finishes limit ⟨_, site, .exprs roots, machine⟩ := by
  cases roots with
  | nil => exact ⟨_, .noExprs⟩
  | cons first rest =>
    obtain ⟨firstEnding, firstEvaluated⟩ := parts _ .firstExpr
    cases firstEnding with
    | error reason after => exact ⟨_, .firstExprFails firstEvaluated⟩
    | ok value between =>
      obtain ⟨restEnding, restEvaluated⟩ := parts _ (.restExprs firstEvaluated)
      cases restEnding with
      | error reason after => exact ⟨_, .laterExprFails firstEvaluated restEvaluated⟩
      | ok values after => exact ⟨_, .exprs firstEvaluated restEvaluated⟩

/-- The elements of a set literal end if the evaluations that they demand end. -/
theorem members_finishes
    (known : List SetEntry)
    (roots : List Expr)
    (parts : ∀ inner, Demands limit ⟨_, site, .members known roots, machine⟩ inner →
      inner.Finishes limit) :
    Call.Finishes limit ⟨_, site, .members known roots, machine⟩ := by
  cases roots with
  | nil => exact ⟨_, .noMembers⟩
  | cons first rest =>
    obtain ⟨firstEnding, firstEvaluated⟩ := parts _ .firstMember
    cases firstEnding with
    | error reason after => exact ⟨_, .memberFails firstEvaluated⟩
    | ok value between =>
      obtain ⟨ending, restEvaluated⟩ := parts _ (.restMembers firstEvaluated)
      exact ⟨ending, .members firstEvaluated restEvaluated⟩

/-- The entries of a map literal end if the evaluations that they demand end. -/
theorem entries_finishes
    (known : List MapEntry)
    (roots : List Entry)
    (parts : ∀ inner, Demands limit ⟨_, site, .entries known roots, machine⟩ inner →
      inner.Finishes limit) :
    Call.Finishes limit ⟨_, site, .entries known roots, machine⟩ := by
  match roots with
  | [] => exact ⟨_, .noEntries⟩
  | .pair span keyExpr valueExpr :: rest =>
    obtain ⟨keyEnding, keyEvaluated⟩ := parts _ .entryKey
    cases keyEnding with
    | error reason after => exact ⟨_, .entryKeyFails keyEvaluated⟩
    | ok name between =>
      obtain ⟨valueEnding, valueEvaluated⟩ := parts _ (.entryValue keyEvaluated)
      cases valueEnding with
      | error reason after => exact ⟨_, .entryValueFails keyEvaluated valueEvaluated⟩
      | ok value after =>
        cases taken : (Store.entryAt? known (after.store.key name)).isSome with
        | true => exact ⟨_, .duplicateKey keyEvaluated valueEvaluated taken⟩
        | false =>
          obtain ⟨ending, restEvaluated⟩ :=
            parts _ (.restEntries keyEvaluated valueEvaluated)
          exact ⟨ending,
            .entries keyEvaluated valueEvaluated taken restEvaluated⟩

/-- A statement ends if the evaluations that it demands end. -/
theorem stmt_finishes
    (root : Stmt)
    (parts : ∀ inner, Demands limit ⟨_, site, .stmt root, machine⟩ inner →
      inner.Finishes limit) :
    Call.Finishes limit ⟨_, site, .stmt root, machine⟩ := by
  cases root with
  | expression span value =>
    obtain ⟨ending, evaluated⟩ := parts _ .expression
    exact ⟨ending, .expression evaluated⟩
  | assignment span target value =>
    obtain ⟨ending, evaluated⟩ := parts _ .assignedValue
    cases ending with
    | error reason after => exact ⟨_, .assignmentFails evaluated⟩
    | ok result after => exact ⟨_, .assignment evaluated⟩
  | binding span mutable name value =>
    cases isFunction : value.isFunction with
    | false =>
      obtain ⟨ending, evaluated⟩ := parts _ .boundValue
      cases ending with
      | error reason after => exact ⟨_, .bindingFails isFunction evaluated⟩
      | ok result after => exact ⟨_, .binding isFunction evaluated⟩
    | true =>
      cases defined : Action.define (some span) site name ⟨none, mutable⟩ machine with
      | error reason after => exact ⟨_, .functionRefused isFunction defined⟩
      | ok _ between =>
        obtain ⟨ending, evaluated⟩ := parts _ (.boundFunction defined)
        cases ending with
        | error reason after => exact ⟨_, .functionFails isFunction defined evaluated⟩
        | ok result after => exact ⟨_, .functionBinding isFunction defined evaluated⟩

/-- A list of statements ends if the evaluations that it demands end. -/
theorem stmts_finishes
    (last : Option Value)
    (roots : List Stmt)
    (parts : ∀ inner, Demands limit ⟨_, site, .stmts last roots, machine⟩ inner →
      inner.Finishes limit) :
    Call.Finishes limit ⟨_, site, .stmts last roots, machine⟩ := by
  cases roots with
  | nil => exact ⟨_, .noStmts⟩
  | cons first rest =>
    obtain ⟨firstEnding, firstEvaluated⟩ := parts _ .firstStmt
    cases firstEnding with
    | error reason after => exact ⟨_, .stmtFails firstEvaluated⟩
    | ok value between =>
      obtain ⟨ending, restEvaluated⟩ := parts _ (.restStmts firstEvaluated)
      exact ⟨ending, .stmts firstEvaluated restEvaluated⟩

/-- The visit of an expression ends if the evaluations that it demands end. -/
theorem visit_finishes
    (root : Expr)
    (parts : ∀ inner, Demands limit ⟨_, site, .visit root, machine⟩ inner →
      inner.Finishes limit) :
    Call.Finishes limit ⟨_, site, .visit root, machine⟩ := by
  by_cases fits : root.reach ≤ site.room
  · obtain ⟨ending, evaluated⟩ := parts _ (.visit fits)
    exact ⟨ending, .visit fits evaluated⟩
  · exact ⟨_, .overflow (Nat.not_le.mp fits)⟩

/-- The visit of a statement ends if the evaluations that it demands end. -/
theorem visitStmt_finishes
    (root : Stmt)
    (parts : ∀ inner, Demands limit ⟨_, site, .visitStmt root, machine⟩ inner →
      inner.Finishes limit) :
    Call.Finishes limit ⟨_, site, .visitStmt root, machine⟩ := by
  by_cases fits : root.reach ≤ site.room
  · obtain ⟨ending, evaluated⟩ := parts _ (.visitStmt fits)
    exact ⟨ending, .visitStmt fits evaluated⟩
  · exact ⟨_, .stmtOverflow (Nat.not_le.mp fits)⟩

/-- A call ends if the evaluation of the function body ends. -/
theorem apply_finishes
    (span : Span)
    (name : Text)
    (callee : Value)
    (arguments : List Value)
    (parts : ∀ inner,
      Demands limit ⟨_, site, .apply span name callee arguments, machine⟩ inner →
      inner.Finishes limit) :
    Call.Finishes limit ⟨_, site, .apply span name callee arguments, machine⟩ := by
  match callee with
  | .builtin function => exact ⟨_, .applyBuiltin⟩
  | .closure index =>
    cases found : machine.store.closures[index]? with
    | none => exact ⟨_, .applyMissing found⟩
    | some closure =>
      by_cases fitting : arguments.length = closure.parameters.length
      swap
      · exact ⟨_, .applyArity found fitting⟩
      by_cases within : machine.depth < limit
      swap
      · exact ⟨_, .applyRefused found fitting (Nat.not_lt.mp within)⟩
      cases bound : bindParameters (machine.store.frames.size :: closure.scope)
          (closure.parameters.zip arguments)
          ⟨(machine.store.addFrame name).2, machine.depth⟩ with
      | error reason after => exact ⟨_, .parametersFail found fitting within bound⟩
      | ok _ after =>
        obtain ⟨ending, evaluated⟩ := parts _ (.body found within bound)
        exact ⟨_, .applyClosure found fitting within bound evaluated⟩
  | .int _ | .float _ _ | .str _ | .char _ | .bool _
  | .collection (.array _) | .collection (.map _) | .collection (.set _) =>
    exact ⟨_, .applyOther rfl⟩

end

/-- Every evaluation ends, by induction along its demands. -/
theorem Call.finishes (limit : Nat) (call : Call) : call.Finishes limit := by
  induction call using (demands_wellFounded limit).induction with
  | _ call parts =>
    obtain ⟨shape, site, task, machine⟩ := call
    cases task with
    | expr root => exact expr_finishes root parts
    | exprs roots => exact exprs_finishes roots parts
    | members known roots => exact members_finishes known roots parts
    | entries known roots => exact entries_finishes known roots parts
    | stmt root => exact stmt_finishes root parts
    | stmts last roots => exact stmts_finishes last roots parts
    | visit root => exact visit_finishes root parts
    | visitStmt root => exact visitStmt_finishes root parts
    | apply span name callee arguments =>
      exact apply_finishes span name callee arguments parts

/-- A task ends in one way exactly if the evaluator does. -/
theorem evaluates_iff_run
    {limit : Nat} {shape : Shape} {site : Site} {task : Task shape} {machine : Machine}
    {ending : Ending shape.Answer} :
    Evaluates limit site task machine ending ↔
      task.run limit (enterWith limit (limit - machine.depth)) site machine = ending := by
  constructor
  · exact Evaluates.run
  · intro ran
    obtain ⟨derived, derivation⟩ := Call.finishes limit ⟨shape, site, task, machine⟩
    have same : derived = ending := derivation.run.symm.trans ran
    exact same ▸ derivation

/-- The rules for a node: only expressions and statements have a value. -/
inductive NodeEvaluates (limit : Nat) (site : Site) : Node → Machine → Ending Value → Prop
  where
  | expr
      {root : Expr} {machine : Machine} {ending : Ending Value} :
      Evaluates limit site (.visit root) machine ending →
      NodeEvaluates limit site (.expr root) machine ending
  | stmt
      {root : Stmt} {machine : Machine} {ending : Ending Value} :
      Evaluates limit site (.visitStmt root) machine ending →
      NodeEvaluates limit site (.stmt root) machine ending
  | entry
      {root : Entry} {machine : Machine} :
      NodeEvaluates limit site (.entry root) machine
        (Action.fail (some root.span) (.notEvaluable "MapEntry") machine)
  | program
      {root : Program} {machine : Machine} :
      NodeEvaluates limit site (.program root) machine
        (Action.fail (some root.span) (.notEvaluable "Program") machine)

/-- The evaluator computes the ending of a node that the rules derive. -/
theorem nodeEvaluates_iff
    {limit : Nat} {site : Site} {root : Node} {machine : Machine}
    {ending : Ending Value} :
    NodeEvaluates limit site root machine ending ↔
      node limit site root machine = ending := by
  constructor
  · intro derivation
    cases derivation with
    | expr evaluated => exact evaluated.run
    | stmt evaluated => exact evaluated.run
    | entry | program => rfl
  · rintro rfl
    cases root with
    | expr root => exact .expr (evaluates_iff_run.mpr rfl)
    | stmt root => exact .stmt (evaluates_iff_run.mpr rfl)
    | entry root => exact .entry
    | program root => exact .program

/-- Every evaluation of a node ends, in exactly one way and with a value or a failure,
whatever the site, the store and the depth from which it starts.  Each evaluation that it
demands is of a smaller part at the same depth or of a function body one level deeper
within the limit, so the demands are well-founded, and the evaluator computes the
ending. -/
theorem evaluation_ends
    (limit : Nat)
    (site : Site)
    (root : Node)
    (machine : Machine) :
    (∀ outer inner, Demands limit outer inner → Descends limit outer inner) ∧
      (WellFounded fun inner outer => Demands limit outer inner) ∧
      (∃! ending, NodeEvaluates limit site root machine ending) ∧
      NodeEvaluates limit site root machine (node limit site root machine) := by
  have derived : NodeEvaluates limit site root machine (node limit site root machine) :=
    nodeEvaluates_iff.mpr rfl
  refine ⟨fun _ _ => Demands.descends, demands_wellFounded limit, ⟨_, derived, ?_⟩, derived⟩
  intro other derivation
  exact (nodeEvaluates_iff.mp derivation).symm

end Offside.Evaluation
