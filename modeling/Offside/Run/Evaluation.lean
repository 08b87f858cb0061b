import Offside.Run.Builtin
import Offside.Run.Operator

namespace Offside

/-!
# Evaluation

Expressions are evaluated left to right in a scope.  Within one function body the
recursion follows the syntax tree; a call of a function goes to its body with one
level less of call depth, and is refused when none is left.  So every evaluation ends.

The host of the evaluator has a stack of its own.  Each evaluation that is under way takes
some levels of it, and where they do not suffice the whole evaluation fails, at whatever it
is about to do.
-/

/-- How many levels of the host stack the evaluation of an expression takes at most, those
of its parts apart. -/
def Expr.reach : Expr → Nat
  | .identifier _ _ => 3
  | .array _ _ | .set _ _ | .map _ _ | .function _ _ _ => 4
  | .int _ _ | .float _ _ | .string _ _ | .char _ _ | .bool _ _ | .index _ _ _ | .block _ _ => 5
  | .call _ _ _ => 6
  | .binary _ _ _ _ => 7

/-- How many levels of the host stack a statement takes at most, those of its value apart. -/
def Stmt.reach : Stmt → Nat
  | .binding _ _ _ _ => 5
  | .assignment _ _ _ | .expression _ _ => 1

/-- Where an evaluation takes place: in a scope, with so many levels left of the host
stack. -/
structure Site where
  scope : Scope
  room : Nat

namespace Site

/-- A site serves for its scope. -/
instance : Coe Site Scope := ⟨scope⟩

/-- The site so many levels further down the host stack. -/
def inside (site : Site) (levels : Nat) : Site :=
  { site with room := site.room - levels }

/-- The site in a frame of its own. -/
def enter (site : Site) (frame : Nat) : Site :=
  { site with scope := frame :: site.scope }

end Site

/-- How a function body is evaluated, as long as there is call depth left. -/
abbrev Enter := Option (Site → Expr → Action Value)

namespace Evaluation

/-- An evaluation that takes so many levels of the host stack. -/
def reaching (limit : Nat) (site : Site) (levels : Nat) (action : Site → Action Value) :
    Action Value :=
  if site.room < levels then Action.fail none (.stackOverflow limit) else action site

/-- The name of what is called, in messages. -/
def calleeName (callee : Expr) (value : Value) : Text :=
  match callee, value with
  | .identifier _ name, _ => name
  | _, .builtin function => function.name
  | _, _ => "function"

/-- Binds parameters to arguments in the innermost frame of a scope. -/
def bindParameters (scope : Scope) : List (Text × Value) → Action Unit
  | [] => pure ()
  | (name, value) :: rest => do
      Action.define none scope name ⟨some value, false⟩
      bindParameters scope rest

/-- Calls a function with evaluated arguments. -/
def callClosure (limit : Nat) (enter : Enter) (site : Site) (span : Span) (name : Text)
    (closure : Closure) (arguments : List Value) : Action Value := do
  if arguments.length ≠ closure.parameters.length then
    Action.fail (some span) (.arity name closure.parameters.length arguments.length)
  else
    match enter with
    | none => Action.fail (some span) (.stackOverflow limit)
    | some evaluate =>
        let frame ← Action.add (·.addFrame name)
        let scope := frame :: closure.scope
        bindParameters scope (closure.parameters.zip arguments)
        Action.deeper (evaluate ⟨scope, site.room - 3⟩ closure.body)

/-- Calls a builtin with evaluated arguments. -/
def callBuiltin (span : Span) (name : Text) (function : Builtin) (arguments : List Value) :
    Action Value := do
  if arguments.length ≠ function.arity then
    Action.fail (some span) (.arity name function.arity arguments.length)
  else
    let (value, store) ←
      Action.check (some span) (Builtin.apply (← Action.store) function arguments)
    Action.setStore store
    return value

/-- Calls a value with evaluated arguments. -/
def callValue (limit : Nat) (enter : Enter) (site : Site) (span : Span) (name : Text)
    (callee : Value) (arguments : List Value) : Action Value := do
  match callee with
  | .builtin function => callBuiltin span name function arguments
  | .closure index =>
      match (← Action.store).closures[index]? with
      | some closure => callClosure limit enter site span name closure arguments
      | none => Action.fail (some span) (.notCallable .closure)
  | other => Action.fail (some span) (.notCallable other.kind)

section

variable (limit : Nat) (enter : Enter)

mutual

/-- Evaluates an expression at a site. -/
def expr (site : Site) : Expr → Action Value
  | .int _ value => pure (.int value)
  | .float _ value => Action.add (·.addFloat value)
  | .string _ value => pure (.str value)
  | .char _ value => pure (.char value)
  | .bool _ value => pure (.bool value)
  | .array _ elements => do
      let values ← exprs (site.inside 2) elements
      Action.add (·.addArray values)
  | .set _ elements => do
      let members ← members (site.inside 2) [] elements
      Action.add (·.addSet members)
  | .map _ pairs => do
      let entries ← entries (site.inside 2) [] pairs
      Action.add (·.addMap entries)
  | .identifier span name => do
      Action.check (some span) ((← Action.store).lookup site name)
  | .binary span left operator right => do
      let leftValue ← reaching limit (site.inside 2) left.reach (expr · left)
      let rightValue ← reaching limit (site.inside 2) right.reach (expr · right)
      Operator.apply operator span leftValue rightValue
  | .function _ parameters body => Action.add (·.addClosure ⟨parameters, body, site⟩)
  | .call span callee arguments => do
      let value ← reaching limit (site.inside 2) callee.reach (expr · callee)
      if value.kind.isCallable then
        let values ← exprs (site.inside 3) arguments
        callValue limit enter site span (calleeName callee value) value values
      else Action.fail (some span) (.notCallable value.kind)
  | .index span target key => do
      let targetValue ← reaching limit (site.inside 2) target.reach (expr · target)
      let keyValue ← reaching limit (site.inside 2) key.reach (expr · key)
      Action.check (some span)
        (Builtin.element "index" (← Action.store) targetValue keyValue)
  | .block span statements => do
      let frame ← Action.add (·.addFrame "block")
      match ← stmts ((site.inside 2).enter frame) none statements with
      | some value => return value
      | none => Action.fail (some span) (.notEvaluable "Block")

/-- Evaluates expressions from left to right. -/
def exprs (site : Site) : List Expr → Action (List Value)
  | [] => pure []
  | first :: rest => do
      let value ← reaching limit site first.reach (expr · first)
      let values ← exprs site rest
      return value :: values

/-- Evaluates the elements of a set literal; equal ones count once. -/
def members (site : Site) (known : List SetEntry) : List Expr → Action (List SetEntry)
  | [] => pure known
  | first :: rest => do
      let value ← reaching limit site first.reach (expr · first)
      let key := (← Action.store).key value
      members site (Store.adjoin known ⟨key, value⟩) rest

/-- Evaluates the entries of a map literal; no key may occur twice. -/
def entries (site : Site) (known : List MapEntry) : List Entry → Action (List MapEntry)
  | [] => pure known
  | .pair span keyExpr valueExpr :: rest => do
      let name ← reaching limit site keyExpr.reach (expr · keyExpr)
      let value ← reaching limit site valueExpr.reach (expr · valueExpr)
      let store ← Action.store
      let key := store.key name
      if (Store.entryAt? known key).isSome then
        Action.fail (some span) (.duplicateKey (store.displayNested name))
      else entries site (known ++ [⟨key, name, value⟩]) rest

/-- Evaluates a statement at a site.  A function is bound before it is made, so that its
body can refer to its name. -/
def stmt (site : Site) : Stmt → Action Value
  | .binding span mutable name value => do
      if value.isFunction then
        Action.define (some span) site name ⟨none, mutable⟩
        let result ← reaching limit (site.inside 2) value.reach (expr · value)
        Action.change (·.fill site name result)
        return result
      else
        let result ← reaching limit (site.inside 2) value.reach (expr · value)
        Action.define (some span) site name ⟨some result, mutable⟩
        return result
  | .assignment span target value => do
      let result ← reaching limit (site.inside 1) value.reach (expr · value)
      Action.assign (some span) site target result
      return result
  | .expression _ value => reaching limit (site.inside 1) value.reach (expr · value)

/-- Evaluates statements in order; the last value is the result. -/
def stmts (site : Site) (last : Option Value) : List Stmt → Action (Option Value)
  | [] => pure last
  | first :: rest => do
      let value ← reaching limit site first.reach (stmt · first)
      stmts site (some value) rest

end

end

/-- How a function body is evaluated when so many levels of call depth are left. -/
def enterWith (limit : Nat) : (remaining : Nat) → Enter
  | 0 => none
  | remaining + 1 => some fun site body =>
      reaching limit site body.reach (expr limit (enterWith limit remaining) · body)

/-- Runs an evaluation from the call depth that the machine is at. -/
def atDepth {α : Type} (limit : Nat) (action : Enter → Action α) : Action α := do
  let machine ← get
  action (enterWith limit (limit - machine.depth))

/-- Evaluates any node of a syntax tree; only expressions and statements have a
value. -/
def node (limit : Nat) (site : Site) : Node → Action Value
  | .expr root => atDepth limit fun enter =>
      reaching limit site root.reach (expr limit enter · root)
  | .stmt root => atDepth limit fun enter =>
      reaching limit site root.reach (stmt limit enter · root)
  | .entry root => Action.fail (some root.span) (.notEvaluable "MapEntry")
  | .program root => Action.fail (some root.span) (.notEvaluable "Program")

/-- The largest stack that can be reserved. -/
def mostStack : Nat :=
  2147483647

/-- How many levels of the host stack are left before an evaluation starts. -/
def hostRoom : Nat :=
  960

/-- Executes statements at a site; the stack for the call depth is reserved before. -/
def executeAt (limit : Nat) (site : Site) (statements : List Stmt) : Action (Option Value) :=
  if mostStack < 1000 + 32 * limit then throw (.abort .stackReservation)
  else atDepth limit fun enter => stmts limit enter site none statements

/-- The site at which the execution of statements starts in a scope. -/
def startSite (limit : Nat) (scope : Scope) : Site :=
  ⟨scope, hostRoom + 32 * limit⟩

/-- Executes statements in a scope. -/
def execute (limit : Nat) (scope : Scope) (statements : List Stmt) : Action (Option Value) :=
  executeAt limit (startSite limit scope) statements

end Evaluation

end Offside
