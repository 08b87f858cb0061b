import Offside.Run.Evaluation

namespace Offside.Evaluation

/-!
# Derivations of evaluations

`Evaluates` gives the meaning of expressions and statements by rules, without the
evaluator.  A rule names the parts that it evaluates, in which order and on which
machine, and what follows when one of them fails.  A function body is evaluated one
level deeper, as long as the depth stays within the limit.  Where the host stack has no
room for an expression or a statement, the evaluation fails before it does anything.

A derivation is finite, so an evaluation that has one ends.
-/

@[simp] theorem scope_inside (site : Site) (levels : Nat) :
    (site.inside levels).scope = site.scope :=
  rfl

/-- What the answer of a task consists of. -/
inductive Shape where
  | value
  | values
  | members
  | entries
  | last
deriving DecidableEq

/-- The answers of a shape. -/
abbrev Shape.Answer : Shape → Type
  | .value => Value
  | .values => List Value
  | .members => List SetEntry
  | .entries => List MapEntry
  | .last => Option Value

/-- Something to evaluate: a piece of syntax with the results of the pieces before it, or
the call of a value.  An expression or a statement is visited, which takes some levels of
the host stack, and then evaluated by its form. -/
inductive Task : Shape → Type where
  | expr (root : Expr) : Task .value
  | exprs (roots : List Expr) : Task .values
  | members (known : List SetEntry) (roots : List Expr) : Task .members
  | entries (known : List MapEntry) (roots : List Entry) : Task .entries
  | stmt (root : Stmt) : Task .value
  | stmts (last : Option Value) (roots : List Stmt) : Task .last
  | visit (root : Expr) : Task .value
  | visitStmt (root : Stmt) : Task .value
  | apply (span : Span) (name : Text) (callee : Value) (arguments : List Value) :
      Task .value

/-- How an action ends: with an answer or with a failure, on a machine. -/
abbrev Ending (α : Type) := EStateM.Result Failure Machine α

namespace Ending

/-- The machine at the end. -/
def machine {α : Type} : Ending α → Machine
  | .ok _ after => after
  | .error _ after => after

/-- The end of a function body, as its caller sees it. -/
def leave {α : Type} : Ending α → Ending α
  | .ok value after => .ok value { after with depth := after.depth - 1 }
  | .error failure after => .error failure { after with depth := after.depth - 1 }

@[simp] theorem machine_leave {α : Type} (ending : Ending α) :
    machine (leave ending) =
      { machine ending with depth := (machine ending).depth - 1 } := by
  cases ending <;> rfl

end Ending

/-- The rules of evaluation. -/
inductive Evaluates (limit : Nat) :
    {shape : Shape} → Site → Task shape → Machine → Ending shape.Answer → Prop where
  | int
      {site : Site} {span : Span} {number : Int} {machine : Machine} :
      Evaluates limit site (.expr (.int span number)) machine (.ok (.int number) machine)
  | float
      {site : Site} {span : Span} {number : Float} {machine : Machine} :
      Evaluates limit site (.expr (.float span number)) machine
        (Action.add (·.addFloat number) machine)
  | string
      {site : Site} {span : Span} {text : Text} {machine : Machine} :
      Evaluates limit site (.expr (.string span text)) machine (.ok (.str text) machine)
  | char
      {site : Site} {span : Span} {code : CodePoint} {machine : Machine} :
      Evaluates limit site (.expr (.char span code)) machine (.ok (.char code) machine)
  | bool
      {site : Site} {span : Span} {truth : Bool} {machine : Machine} :
      Evaluates limit site (.expr (.bool span truth)) machine (.ok (.bool truth) machine)
  | array
      {site : Site} {span : Span} {elements : List Expr} {machine after : Machine}
      {values : List Value} :
      Evaluates limit (site.inside 2) (.exprs elements) machine (.ok values after) →
      Evaluates limit site (.expr (.array span elements)) machine
        (Action.add (·.addArray values) after)
  | arrayFails
      {site : Site} {span : Span} {elements : List Expr} {machine after : Machine}
      {reason : Failure} :
      Evaluates limit (site.inside 2) (.exprs elements) machine (.error reason after) →
      Evaluates limit site (.expr (.array span elements)) machine (.error reason after)
  | set
      {site : Site} {span : Span} {elements : List Expr} {machine after : Machine}
      {gathered : List SetEntry} :
      Evaluates limit (site.inside 2) (.members [] elements) machine (.ok gathered after) →
      Evaluates limit site (.expr (.set span elements)) machine
        (Action.add (·.addSet gathered) after)
  | setFails
      {site : Site} {span : Span} {elements : List Expr} {machine after : Machine}
      {reason : Failure} :
      Evaluates limit (site.inside 2) (.members [] elements) machine (.error reason after) →
      Evaluates limit site (.expr (.set span elements)) machine (.error reason after)
  | map
      {site : Site} {span : Span} {pairs : List Entry} {machine after : Machine}
      {gathered : List MapEntry} :
      Evaluates limit (site.inside 2) (.entries [] pairs) machine (.ok gathered after) →
      Evaluates limit site (.expr (.map span pairs)) machine
        (Action.add (·.addMap gathered) after)
  | mapFails
      {site : Site} {span : Span} {pairs : List Entry} {machine after : Machine}
      {reason : Failure} :
      Evaluates limit (site.inside 2) (.entries [] pairs) machine (.error reason after) →
      Evaluates limit site (.expr (.map span pairs)) machine (.error reason after)
  | identifier
      {site : Site} {span : Span} {name : Text} {machine : Machine} :
      Evaluates limit site (.expr (.identifier span name)) machine
        (Action.check (some span) (machine.store.lookup site name) machine)
  | binary
      {site : Site} {span : Span} {left right : Expr} {operator : TokenKind}
      {machine between after : Machine} {leftValue rightValue : Value} :
      Evaluates limit (site.inside 2) (.visit left) machine (.ok leftValue between) →
      Evaluates limit (site.inside 2) (.visit right) between (.ok rightValue after) →
      Evaluates limit site (.expr (.binary span left operator right)) machine
        (Operator.apply operator span leftValue rightValue after)
  | leftFails
      {site : Site} {span : Span} {left right : Expr} {operator : TokenKind}
      {machine after : Machine} {reason : Failure} :
      Evaluates limit (site.inside 2) (.visit left) machine (.error reason after) →
      Evaluates limit site (.expr (.binary span left operator right)) machine
        (.error reason after)
  | rightFails
      {site : Site} {span : Span} {left right : Expr} {operator : TokenKind}
      {machine between after : Machine} {leftValue : Value} {reason : Failure} :
      Evaluates limit (site.inside 2) (.visit left) machine (.ok leftValue between) →
      Evaluates limit (site.inside 2) (.visit right) between (.error reason after) →
      Evaluates limit site (.expr (.binary span left operator right)) machine
        (.error reason after)
  | function
      {site : Site} {span : Span} {parameters : List Text} {body : Expr} {machine : Machine} :
      Evaluates limit site (.expr (.function span parameters body)) machine
        (Action.add (·.addClosure ⟨parameters, body, site⟩) machine)
  | calleeFails
      {site : Site} {span : Span} {callee : Expr} {arguments : List Expr}
      {machine after : Machine} {reason : Failure} :
      Evaluates limit (site.inside 2) (.visit callee) machine (.error reason after) →
      Evaluates limit site (.expr (.call span callee arguments)) machine
        (.error reason after)
  | notCallable
      {site : Site} {span : Span} {callee : Expr} {value : Value} {arguments : List Expr}
      {machine after : Machine} :
      Evaluates limit (site.inside 2) (.visit callee) machine (.ok value after) →
      value.kind.isCallable = false →
      Evaluates limit site (.expr (.call span callee arguments)) machine
        (Action.fail (some span) (.notCallable value.kind) after)
  | argumentsFail
      {site : Site} {span : Span} {callee : Expr} {value : Value} {arguments : List Expr}
      {machine between after : Machine} {reason : Failure} :
      Evaluates limit (site.inside 2) (.visit callee) machine (.ok value between) →
      value.kind.isCallable = true →
      Evaluates limit (site.inside 3) (.exprs arguments) between (.error reason after) →
      Evaluates limit site (.expr (.call span callee arguments)) machine
        (.error reason after)
  | call
      {site : Site} {span : Span} {callee : Expr} {value : Value} {arguments : List Expr}
      {machine between after : Machine} {values : List Value} {ending : Ending Value} :
      Evaluates limit (site.inside 2) (.visit callee) machine (.ok value between) →
      value.kind.isCallable = true →
      Evaluates limit (site.inside 3) (.exprs arguments) between (.ok values after) →
      Evaluates limit site (.apply span (calleeName callee value) value values) after
        ending →
      Evaluates limit site (.expr (.call span callee arguments)) machine ending
  | targetFails
      {site : Site} {span : Span} {target key : Expr} {machine after : Machine}
      {reason : Failure} :
      Evaluates limit (site.inside 2) (.visit target) machine (.error reason after) →
      Evaluates limit site (.expr (.index span target key)) machine (.error reason after)
  | keyFails
      {site : Site} {span : Span} {target key : Expr} {machine between after : Machine}
      {targetValue : Value} {reason : Failure} :
      Evaluates limit (site.inside 2) (.visit target) machine (.ok targetValue between) →
      Evaluates limit (site.inside 2) (.visit key) between (.error reason after) →
      Evaluates limit site (.expr (.index span target key)) machine (.error reason after)
  | index
      {site : Site} {span : Span} {target key : Expr} {machine between after : Machine}
      {targetValue keyValue : Value} :
      Evaluates limit (site.inside 2) (.visit target) machine (.ok targetValue between) →
      Evaluates limit (site.inside 2) (.visit key) between (.ok keyValue after) →
      Evaluates limit site (.expr (.index span target key)) machine
        (Action.check (some span) (Builtin.element "index" after.store targetValue keyValue)
          after)
  | blockFails
      {site : Site} {span : Span} {statements : List Stmt} {machine after : Machine}
      {reason : Failure} :
      Evaluates limit ((site.inside 2).enter machine.store.frames.size) (.stmts none statements)
        ⟨(machine.store.addFrame "block").2, machine.depth⟩ (.error reason after) →
      Evaluates limit site (.expr (.block span statements)) machine (.error reason after)
  | block
      {site : Site} {span : Span} {statements : List Stmt} {value : Value}
      {machine after : Machine} :
      Evaluates limit ((site.inside 2).enter machine.store.frames.size) (.stmts none statements)
        ⟨(machine.store.addFrame "block").2, machine.depth⟩ (.ok (some value) after) →
      Evaluates limit site (.expr (.block span statements)) machine (.ok value after)
  | emptyBlock
      {site : Site} {span : Span} {statements : List Stmt} {machine after : Machine} :
      Evaluates limit ((site.inside 2).enter machine.store.frames.size) (.stmts none statements)
        ⟨(machine.store.addFrame "block").2, machine.depth⟩ (.ok none after) →
      Evaluates limit site (.expr (.block span statements)) machine
        (Action.fail (some span) (.notEvaluable "Block") after)
  | noExprs
      {site : Site} {machine : Machine} :
      Evaluates limit site (.exprs []) machine (.ok [] machine)
  | exprs
      {site : Site} {first : Expr} {rest : List Expr} {value : Value}
      {machine between after : Machine} {values : List Value} :
      Evaluates limit site (.visit first) machine (.ok value between) →
      Evaluates limit site (.exprs rest) between (.ok values after) →
      Evaluates limit site (.exprs (first :: rest)) machine (.ok (value :: values) after)
  | firstExprFails
      {site : Site} {first : Expr} {rest : List Expr} {machine after : Machine}
      {reason : Failure} :
      Evaluates limit site (.visit first) machine (.error reason after) →
      Evaluates limit site (.exprs (first :: rest)) machine (.error reason after)
  | laterExprFails
      {site : Site} {first : Expr} {rest : List Expr} {value : Value}
      {machine between after : Machine} {reason : Failure} :
      Evaluates limit site (.visit first) machine (.ok value between) →
      Evaluates limit site (.exprs rest) between (.error reason after) →
      Evaluates limit site (.exprs (first :: rest)) machine (.error reason after)
  | noMembers
      {site : Site} {known : List SetEntry} {machine : Machine} :
      Evaluates limit site (.members known []) machine (.ok known machine)
  | memberFails
      {site : Site} {first : Expr} {rest : List Expr} {known : List SetEntry}
      {machine after : Machine} {reason : Failure} :
      Evaluates limit site (.visit first) machine (.error reason after) →
      Evaluates limit site (.members known (first :: rest)) machine (.error reason after)
  | members
      {site : Site} {first : Expr} {rest : List Expr} {known : List SetEntry}
      {value : Value} {machine between : Machine} {ending : Ending (List SetEntry)} :
      Evaluates limit site (.visit first) machine (.ok value between) →
      Evaluates limit site
        (.members (Store.adjoin known ⟨between.store.key value, value⟩) rest) between
        ending →
      Evaluates limit site (.members known (first :: rest)) machine ending
  | noEntries
      {site : Site} {known : List MapEntry} {machine : Machine} :
      Evaluates limit site (.entries known []) machine (.ok known machine)
  | entryKeyFails
      {site : Site} {span : Span} {keyExpr valueExpr : Expr} {rest : List Entry}
      {known : List MapEntry} {machine after : Machine} {reason : Failure} :
      Evaluates limit site (.visit keyExpr) machine (.error reason after) →
      Evaluates limit site (.entries known (.pair span keyExpr valueExpr :: rest)) machine
        (.error reason after)
  | entryValueFails
      {site : Site} {span : Span} {keyExpr valueExpr : Expr} {rest : List Entry}
      {name : Value} {known : List MapEntry} {machine between after : Machine}
      {reason : Failure} :
      Evaluates limit site (.visit keyExpr) machine (.ok name between) →
      Evaluates limit site (.visit valueExpr) between (.error reason after) →
      Evaluates limit site (.entries known (.pair span keyExpr valueExpr :: rest)) machine
        (.error reason after)
  | duplicateKey
      {site : Site} {span : Span} {keyExpr valueExpr : Expr} {rest : List Entry}
      {name value : Value} {known : List MapEntry} {machine between after : Machine} :
      Evaluates limit site (.visit keyExpr) machine (.ok name between) →
      Evaluates limit site (.visit valueExpr) between (.ok value after) →
      (Store.entryAt? known (after.store.key name)).isSome = true →
      Evaluates limit site (.entries known (.pair span keyExpr valueExpr :: rest)) machine
        (Action.fail (some span) (.duplicateKey (after.store.displayNested name)) after)
  | entries
      {site : Site} {span : Span} {keyExpr valueExpr : Expr} {rest : List Entry}
      {name value : Value} {known : List MapEntry} {machine between after : Machine}
      {ending : Ending (List MapEntry)} :
      Evaluates limit site (.visit keyExpr) machine (.ok name between) →
      Evaluates limit site (.visit valueExpr) between (.ok value after) →
      (Store.entryAt? known (after.store.key name)).isSome = false →
      Evaluates limit site
        (.entries (known ++ [⟨after.store.key name, name, value⟩]) rest) after ending →
      Evaluates limit site (.entries known (.pair span keyExpr valueExpr :: rest)) machine
        ending
  | functionRefused
      {site : Site} {span : Span} {mutable : Bool} {name : Text} {value : Expr}
      {machine after : Machine} {reason : Failure} :
      value.isFunction = true →
      Action.define (some span) site name ⟨none, mutable⟩ machine = .error reason after →
      Evaluates limit site (.stmt (.binding span mutable name value)) machine
        (.error reason after)
  | functionFails
      {site : Site} {span : Span} {mutable : Bool} {name : Text} {value : Expr}
      {machine between after : Machine} {reason : Failure} :
      value.isFunction = true →
      Action.define (some span) site name ⟨none, mutable⟩ machine = .ok () between →
      Evaluates limit (site.inside 2) (.visit value) between (.error reason after) →
      Evaluates limit site (.stmt (.binding span mutable name value)) machine
        (.error reason after)
  | functionBinding
      {site : Site} {span : Span} {mutable : Bool} {name : Text} {value : Expr}
      {machine between after : Machine} {result : Value} :
      value.isFunction = true →
      Action.define (some span) site name ⟨none, mutable⟩ machine = .ok () between →
      Evaluates limit (site.inside 2) (.visit value) between (.ok result after) →
      Evaluates limit site (.stmt (.binding span mutable name value)) machine
        (.ok result ⟨after.store.fill site name result, after.depth⟩)
  | bindingFails
      {site : Site} {span : Span} {mutable : Bool} {name : Text} {value : Expr}
      {machine after : Machine} {reason : Failure} :
      value.isFunction = false →
      Evaluates limit (site.inside 2) (.visit value) machine (.error reason after) →
      Evaluates limit site (.stmt (.binding span mutable name value)) machine
        (.error reason after)
  | binding
      {site : Site} {span : Span} {mutable : Bool} {name : Text} {value : Expr}
      {machine after : Machine} {result : Value} :
      value.isFunction = false →
      Evaluates limit (site.inside 2) (.visit value) machine (.ok result after) →
      Evaluates limit site (.stmt (.binding span mutable name value)) machine
        ((do
          Action.define (some span) site name ⟨some result, mutable⟩
          return result : Action Value) after)
  | assignmentFails
      {site : Site} {span : Span} {target : Text} {value : Expr} {machine after : Machine}
      {reason : Failure} :
      Evaluates limit (site.inside 1) (.visit value) machine (.error reason after) →
      Evaluates limit site (.stmt (.assignment span target value)) machine
        (.error reason after)
  | assignment
      {site : Site} {span : Span} {target : Text} {value : Expr} {machine after : Machine}
      {result : Value} :
      Evaluates limit (site.inside 1) (.visit value) machine (.ok result after) →
      Evaluates limit site (.stmt (.assignment span target value)) machine
        ((do
          Action.assign (some span) site target result
          return result : Action Value) after)
  | expression
      {site : Site} {span : Span} {value : Expr} {machine : Machine} {ending : Ending Value} :
      Evaluates limit (site.inside 1) (.visit value) machine ending →
      Evaluates limit site (.stmt (.expression span value)) machine ending
  | noStmts
      {site : Site} {last : Option Value} {machine : Machine} :
      Evaluates limit site (.stmts last []) machine (.ok last machine)
  | stmtFails
      {site : Site} {first : Stmt} {rest : List Stmt} {last : Option Value}
      {machine after : Machine} {reason : Failure} :
      Evaluates limit site (.visitStmt first) machine (.error reason after) →
      Evaluates limit site (.stmts last (first :: rest)) machine (.error reason after)
  | stmts
      {site : Site} {first : Stmt} {rest : List Stmt} {last : Option Value} {value : Value}
      {machine between : Machine} {ending : Ending (Option Value)} :
      Evaluates limit site (.visitStmt first) machine (.ok value between) →
      Evaluates limit site (.stmts (some value) rest) between ending →
      Evaluates limit site (.stmts last (first :: rest)) machine ending
  | overflow
      {site : Site} {root : Expr} {machine : Machine} :
      site.room < root.reach →
      Evaluates limit site (.visit root) machine
        (Action.fail none (.stackOverflow limit) machine)
  | visit
      {site : Site} {root : Expr} {machine : Machine} {ending : Ending Value} :
      root.reach ≤ site.room →
      Evaluates limit site (.expr root) machine ending →
      Evaluates limit site (.visit root) machine ending
  | stmtOverflow
      {site : Site} {root : Stmt} {machine : Machine} :
      site.room < root.reach →
      Evaluates limit site (.visitStmt root) machine
        (Action.fail none (.stackOverflow limit) machine)
  | visitStmt
      {site : Site} {root : Stmt} {machine : Machine} {ending : Ending Value} :
      root.reach ≤ site.room →
      Evaluates limit site (.stmt root) machine ending →
      Evaluates limit site (.visitStmt root) machine ending
  | applyOther
      {site : Site} {span : Span} {callee : Value} {name : Text} {arguments : List Value}
      {machine : Machine} :
      callee.kind.isCallable = false →
      Evaluates limit site (.apply span name callee arguments) machine
        (Action.fail (some span) (.notCallable callee.kind) machine)
  | applyBuiltin
      {site : Site} {span : Span} {name : Text} {function : Builtin}
      {arguments : List Value} {machine : Machine} :
      Evaluates limit site (.apply span name (.builtin function) arguments) machine
        (callBuiltin span name function arguments machine)
  | applyMissing
      {site : Site} {span : Span} {name : Text} {index : Nat} {arguments : List Value}
      {machine : Machine} :
      machine.store.closures[index]? = none →
      Evaluates limit site (.apply span name (.closure index) arguments) machine
        (Action.fail (some span) (.notCallable .closure) machine)
  | applyArity
      {site : Site} {span : Span} {name : Text} {index : Nat} {closure : Closure}
      {arguments : List Value} {machine : Machine} :
      machine.store.closures[index]? = some closure →
      arguments.length ≠ closure.parameters.length →
      Evaluates limit site (.apply span name (.closure index) arguments) machine
        (Action.fail (some span)
          (.arity name closure.parameters.length arguments.length) machine)
  | applyRefused
      {site : Site} {span : Span} {name : Text} {index : Nat} {closure : Closure}
      {arguments : List Value} {machine : Machine} :
      machine.store.closures[index]? = some closure →
      arguments.length = closure.parameters.length →
      limit ≤ machine.depth →
      Evaluates limit site (.apply span name (.closure index) arguments) machine
        (Action.fail (some span) (.stackOverflow limit) machine)
  | parametersFail
      {site : Site} {span : Span} {name : Text} {index : Nat} {closure : Closure}
      {arguments : List Value} {machine after : Machine} {reason : Failure} :
      machine.store.closures[index]? = some closure →
      arguments.length = closure.parameters.length →
      machine.depth < limit →
      bindParameters (machine.store.frames.size :: closure.scope)
        (closure.parameters.zip arguments)
        ⟨(machine.store.addFrame name).2, machine.depth⟩ = .error reason after →
      Evaluates limit site (.apply span name (.closure index) arguments) machine
        (.error reason after)
  | applyClosure
      {site : Site} {span : Span} {name : Text} {index : Nat} {closure : Closure}
      {arguments : List Value} {machine bound : Machine} {ending : Ending Value} :
      machine.store.closures[index]? = some closure →
      arguments.length = closure.parameters.length →
      machine.depth < limit →
      bindParameters (machine.store.frames.size :: closure.scope)
        (closure.parameters.zip arguments)
        ⟨(machine.store.addFrame name).2, machine.depth⟩ = .ok () bound →
      Evaluates limit ⟨machine.store.frames.size :: closure.scope, site.room - 3⟩
        (.visit closure.body)
        ⟨bound.store, bound.depth + 1⟩ ending →
      Evaluates limit site (.apply span name (.closure index) arguments) machine
        (Ending.leave ending)

end Offside.Evaluation
