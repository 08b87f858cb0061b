import Mathlib.Logic.Relation
import Offside.Proofs.Evaluation.Termination

namespace Offside

/-!
# What evaluations do to the store

An evaluation changes the store in two ways: through the evaluations that it performs, and
by an effect of its own, which is one of a few.  So whatever relates the store before each
effect to the store after it, and can be chained, relates the store before an evaluation to
the store on which it ends, with an answer or with a failure.
-/

variable {scope : Scope} {name : Text} {machine after : Machine} {span : Span}

/-- Binding a name makes no function. -/
@[simp] theorem Store.closures_bind (store : Store) (scope : Scope) (name : Text) (slot : Slot) :
    (store.bind scope name slot).closures = store.closures := by
  cases scope <;> rfl

namespace Action

/-- A name that was bound could be bound. -/
theorem of_define_ok
    {span : Option Span} {slot : Slot}
    (defined : define span scope name slot machine = .ok () after) :
    machine.store.bindingRefused? scope name = none ∧
      after = ⟨machine.store.bind scope name slot, machine.depth⟩ := by
  unfold define at defined
  rw [store_bind_run] at defined
  cases refused : machine.store.bindingRefused? scope name with
  | some cause =>
    rw [refused] at defined
    cases defined
  | none =>
    rw [refused] at defined
    cases defined
    exact ⟨rfl, rfl⟩

/-- A binding that is refused leaves the machine as it is. -/
theorem of_define_error
    {span : Option Span} {slot : Slot}
    {reason : Failure}
    (failed : define span scope name slot machine = .error reason after) :
    after = machine ∧ ∃ cause, machine.store.bindingRefused? scope name = some cause ∧
      reason = .fault ⟨.runtime cause, span, none⟩ := by
  unfold define at failed
  rw [store_bind_run] at failed
  cases refused : machine.store.bindingRefused? scope name with
  | some cause =>
    rw [refused] at failed
    cases failed
    exact ⟨rfl, cause, rfl, rfl⟩
  | none =>
    rw [refused] at failed
    cases failed

/-- An assignment that was made found a binding that may be assigned. -/
theorem of_assign_ok
    {span : Option Span} {value : Value}
    (assigned : assign span scope name value machine = .ok () after) :
    ∃ place, machine.store.assignedFrame scope name = .ok place ∧
      after = ⟨machine.store.modifyFrame place (·.fill name value), machine.depth⟩ := by
  unfold assign at assigned
  rw [store_bind_run] at assigned
  cases found : machine.store.assignedFrame scope name with
  | ok place =>
    rw [found] at assigned
    cases assigned
    exact ⟨place, rfl, rfl⟩
  | error cause =>
    rw [found] at assigned
    cases assigned

/-- An assignment that is refused leaves the machine as it is. -/
theorem of_assign_error
    {span : Option Span} {value : Value}
    {reason : Failure}
    (failed : assign span scope name value machine = .error reason after) :
    after = machine ∧ ∃ cause, machine.store.assignedFrame scope name = .error cause ∧
      reason = .fault ⟨.runtime cause, span, none⟩ := by
  unfold assign at failed
  rw [store_bind_run] at failed
  cases found : machine.store.assignedFrame scope name with
  | ok place =>
    rw [found] at failed
    cases failed
  | error cause =>
    rw [found] at failed
    cases failed
    exact ⟨rfl, cause, rfl, rfl⟩

section

variable {span : Option Span} {value : Value} {motive : Evaluation.Ending Value → Prop}

/-- A statement that binds a value gives the value, unless the binding is refused. -/
theorem define_ends
    {mutable : Bool}
    (bound : machine.store.bindingRefused? scope name = none →
      motive (.ok value ⟨machine.store.bind scope name ⟨some value, mutable⟩, machine.depth⟩))
    (refused : ∀ reason, motive (.error reason machine)) :
    motive ((do
      define span scope name ⟨some value, mutable⟩
      return value : Action Value) machine) := by
  cases ran : define span scope name ⟨some value, mutable⟩ machine with
  | ok _ later =>
    rw [bind_of_ok ran]
    obtain ⟨allowed, rfl⟩ := of_define_ok ran
    exact bound allowed
  | error reason later =>
    rw [bind_of_error ran]
    obtain ⟨rfl, _⟩ := of_define_error ran
    exact refused reason

/-- A statement that assigns a value gives the value, unless the assignment is refused. -/
theorem assign_ends
    (assigned : ∀ place, machine.store.assignedFrame scope name = .ok place →
      motive (.ok value ⟨machine.store.modifyFrame place (·.fill name value), machine.depth⟩))
    (refused : ∀ reason, motive (.error reason machine)) :
    motive ((do
      assign span scope name value
      return value : Action Value) machine) := by
  cases ran : assign span scope name value machine with
  | ok _ later =>
    rw [bind_of_ok ran]
    obtain ⟨place, found, rfl⟩ := of_assign_ok ran
    exact assigned place found
  | error reason later =>
    rw [bind_of_error ran]
    obtain ⟨rfl, _⟩ := of_assign_error ran
    exact refused reason

end

end Action

/-- What binding a name keeps, binding the parameters of a call keeps, whether all are bound or
one of them is refused. -/
theorem Evaluation.bindParameters_keeps
    {keeps : Store → Prop} {bindings : List (Text × Value)}
    (holds : keeps machine.store)
    (step : ∀ name value store, (name, value) ∈ bindings → keeps store →
      store.bindingRefused? scope name = none →
        keeps (store.bind scope name ⟨some value, false⟩)) :
    keeps (Ending.machine (bindParameters scope bindings machine)).store := by
  induction bindings generalizing machine with
  | nil => exact holds
  | cons binding rest hypothesis =>
    obtain ⟨name, value⟩ := binding
    unfold bindParameters
    cases ran : Action.define none scope name ⟨some value, false⟩ machine with
    | error reason after =>
      rw [Action.bind_of_error ran]
      obtain ⟨rfl, _⟩ := Action.of_define_error ran
      exact holds
    | ok _ after =>
      rw [Action.bind_of_ok ran]
      obtain ⟨allowed, rfl⟩ := Action.of_define_ok ran
      exact hypothesis (step name value _ List.mem_cons_self holds allowed)
        fun name value store member => step name value store (List.mem_cons_of_mem _ member)

namespace Operator

/-- How an operator ends: nothing changes, or an array or a number is made. -/
inductive Ends (machine : Machine) : Evaluation.Ending Value → Prop where
  | answer {value : Value} : Ends machine (.ok value machine)
  | array {items : List Value} : Ends machine (Action.add (·.addArray items) machine)
  | number {number : Float} : Ends machine (Action.add (·.addFloat number) machine)
  | refused {reason : Failure} : Ends machine (.error reason machine)

/-- Whether an action ends as an operator does, on every machine. -/
def Modest (action : Action Value) : Prop :=
  ∀ machine, Ends machine (action machine)

theorem apply_modest (operator : TokenKind) (span : Span) (left right : Value) :
    Modest (apply operator span left right) := by
  have applies := applies_apply operator span left right
  generalize apply operator span left right = action at applies ⊢
  intro machine
  cases applies with
  | compared | ordered | texts => exact .answer
  | arrays => exact .array
  | integers first second => cases Integer.apply operator first second <;> constructor
  | floats => exact .number
  | floatsFail | refused => exact .refused

end Operator

namespace Evaluation

variable {site : Site} {value : Expr}

/-- The checks that stand between an evaluation and one that it demands are passed. -/
def Passes (limit : Nat) : (outer inner : Call) → Prop
  | ⟨_, _, .expr (.call _ _ _), _⟩, ⟨_, _, .visit _, _⟩ => True
  | ⟨_, site, .expr (.call _ callee _), machine⟩, _ =>
    ∃ value between, Evaluates limit (site.inside 2) (.visit callee) machine (.ok value between) ∧
      value.kind.isCallable = true
  | ⟨_, _, .entries known _, _⟩, ⟨_, _, .entries gathered _, _⟩ =>
    ∃ entry, gathered = known ++ [entry] ∧
      (Store.entryAt? known entry.key).isSome = false
  | ⟨_, site, .stmt (.binding span mutable name value), machine⟩, inner =>
    if value.isFunction then
      Action.define (some span) site name ⟨none, mutable⟩ machine = .ok () inner.machine
    else inner.machine = machine
  | ⟨_, _, .apply _ _ (.closure index) arguments, machine⟩, _ =>
    ∃ closure, machine.store.closures[index]? = some closure ∧
      arguments.length = closure.parameters.length
  | _, _ => True

/-- The evaluation `inner` takes place as a part of `outer`. -/
structure Performs (limit : Nat) (outer inner : Call) : Prop where
  demanded : Demands limit outer inner
  passed : Passes limit outer inner

/-- The evaluation `inner` takes place within `outer`, or is `outer` itself. -/
abbrev Within (limit : Nat) : (outer inner : Call) → Prop :=
  Relation.ReflTransGen (Performs limit)

/-- A function is called where a call is evaluated. -/
theorem Within.call_of_apply
    {limit : Nat} {top : Site} {last : Option Value} {statements : List Stmt}
    {callee : Value} {arguments : List Value} {before : Machine}
    (within : Within limit ⟨_, top, .stmts last statements, machine⟩
      ⟨_, site, .apply span name callee arguments, before⟩) :
    ∃ root roots outer, Within limit ⟨_, top, .stmts last statements, machine⟩
      ⟨_, site, .expr (.call span root roots), outer⟩ := by
  rcases within.cases_tail with isFirst | ⟨outer, around, demand, _⟩
  · cases isFirst
  · cases demand with
    | apply => exact ⟨_, _, _, around⟩

/-- What an evaluation itself does to the store, apart from the evaluations that it
performs. -/
inductive Effect (limit : Nat) : (call : Call) → (before after : Store) → Prop where
  | float
      {site : Site} {span : Span} {number : Float} {machine : Machine} :
      Effect limit ⟨_, site, .expr (.float span number), machine⟩ machine.store
        (machine.store.addFloat number).2
  | array
      {site : Site} {span : Span} {elements : List Expr} {machine after : Machine}
      {values : List Value} :
      Evaluates limit (site.inside 2) (.exprs elements) machine (.ok values after) →
      Effect limit ⟨_, site, .expr (.array span elements), machine⟩ after.store
        (after.store.addArray values).2
  | set
      {site : Site} {span : Span} {elements : List Expr} {machine after : Machine}
      {gathered : List SetEntry} :
      Evaluates limit (site.inside 2) (.members [] elements) machine (.ok gathered after) →
      Effect limit ⟨_, site, .expr (.set span elements), machine⟩ after.store
        (after.store.addSet gathered).2
  | map
      {site : Site} {span : Span} {pairs : List Entry} {machine after : Machine}
      {gathered : List MapEntry} :
      Evaluates limit (site.inside 2) (.entries [] pairs) machine (.ok gathered after) →
      Effect limit ⟨_, site, .expr (.map span pairs), machine⟩ after.store
        (after.store.addMap gathered).2
  | operator
      {site : Site} {span : Span} {left right : Expr} {operator : TokenKind}
      {machine between after : Machine} {leftValue rightValue : Value} :
      Evaluates limit (site.inside 2) (.visit left) machine (.ok leftValue between) →
      Evaluates limit (site.inside 2) (.visit right) between (.ok rightValue after) →
      Effect limit ⟨_, site, .expr (.binary span left operator right), machine⟩ after.store
        (Ending.machine (Operator.apply operator span leftValue rightValue after)).store
  | function
      {site : Site} {span : Span} {parameters : List Text} {body : Expr} {machine : Machine} :
      Effect limit ⟨_, site, .expr (.function span parameters body), machine⟩ machine.store
        (machine.store.addClosure ⟨parameters, body, site⟩).2
  | block
      {site : Site} {span : Span} {statements : List Stmt} {machine : Machine} :
      Effect limit ⟨_, site, .expr (.block span statements), machine⟩ machine.store
        (machine.store.addFrame "block").2
  | functionBinding
      {site : Site} {span place : Span} {mutable : Bool} {name : Text}
      {parameters : List Text} {body : Expr} {machine : Machine} :
      machine.store.bindingRefused? site name = none →
      (Expr.function place parameters body).reach ≤ (site.inside 2).room →
      Effect limit
        ⟨_, site, .stmt (.binding span mutable name (.function place parameters body)), machine⟩
        machine.store
        (((machine.store.bind site name ⟨none, mutable⟩).addClosure
          ⟨parameters, body, site⟩).2.fill site name (.closure machine.store.closures.size))
  | functionStruck
      {site : Site} {span place : Span} {mutable : Bool} {name : Text}
      {parameters : List Text} {body : Expr} {machine : Machine} :
      machine.store.bindingRefused? site name = none →
      (site.inside 2).room < (Expr.function place parameters body).reach →
      Effect limit
        ⟨_, site, .stmt (.binding span mutable name (.function place parameters body)), machine⟩
        machine.store (machine.store.bind site name ⟨none, mutable⟩)
  | binding
      {site : Site} {span : Span} {mutable : Bool} {name : Text} {value : Expr}
      {machine after : Machine} {result : Value} :
      Evaluates limit (site.inside 2) (.visit value) machine (.ok result after) →
      after.store.bindingRefused? site name = none →
      Effect limit ⟨_, site, .stmt (.binding span mutable name value), machine⟩ after.store
        (after.store.bind site name ⟨some result, mutable⟩)
  | assignment
      {site : Site} {span : Span} {target : Text} {value : Expr} {machine after : Machine}
      {result : Value} {place : Nat} :
      Evaluates limit (site.inside 1) (.visit value) machine (.ok result after) →
      after.store.assignedFrame site target = .ok place →
      Effect limit ⟨_, site, .stmt (.assignment span target value), machine⟩ after.store
        (after.store.modifyFrame place (·.fill target result))
  | builtin
      {site : Site} {span : Span} {name : Text} {function : Builtin}
      {arguments : List Value} {machine : Machine} {result : Value} {after : Store} :
      Builtin.apply machine.store function arguments = .ok (result, after) →
      Effect limit ⟨_, site, .apply span name (.builtin function) arguments, machine⟩
        machine.store after
  | enter
      {site : Site} {span : Span} {name : Text} {index : Nat} {closure : Closure}
      {arguments : List Value} {machine : Machine} :
      machine.store.closures[index]? = some closure →
      arguments.length = closure.parameters.length →
      Effect limit ⟨_, site, .apply span name (.closure index) arguments, machine⟩
        machine.store
        (Ending.machine (bindParameters (machine.store.frames.size :: closure.scope)
          (closure.parameters.zip arguments)
          ⟨(machine.store.addFrame name).2, machine.depth⟩)).store

/-- An expression that makes a function has parameters and a body. -/
theorem exists_of_isFunction (isFunction : value.isFunction = true) :
    ∃ span parameters body, value = .function span parameters body := by
  cases value with
  | function span parameters body => exact ⟨span, parameters, body, rfl⟩
  | _ => cases isFunction

/-- How an evaluation fails for which the host stack has no room. -/
def hostOverflow (limit : Nat) : Failure :=
  .fault ⟨.runtime (.stackOverflow limit), none, none⟩

section

variable {limit : Nat} {parameters : List Text} {body : Expr}

/-- Where the host stack has room for it, making a function adds it to the store. -/
theorem visits_function
    {result : Value}
    (derivation : Evaluates limit site (.visit (.function span parameters body)) machine
      (.ok result after)) :
    (Expr.function span parameters body).reach ≤ site.room ∧
      result = .closure machine.store.closures.size ∧
      after = ⟨(machine.store.addClosure ⟨parameters, body, site⟩).2, machine.depth⟩ := by
  cases derivation with
  | visit fits evaluated =>
    cases evaluated
    exact ⟨fits, rfl, rfl⟩

/-- Making a function fails only where the host stack has no room for it. -/
theorem visit_function_fails
    {reason : Failure}
    (derivation : Evaluates limit site (.visit (.function span parameters body)) machine
      (.error reason after)) :
    site.room < (Expr.function span parameters body).reach ∧ reason = hostOverflow limit ∧
      after = machine := by
  cases derivation with
  | overflow short => exact ⟨short, rfl, rfl⟩
  | visit _ evaluated => cases evaluated

end

section

variable {related : Store → Store → Prop} {limit : Nat}

/-- A builtin relates the store before it to the store after it. -/
theorem callBuiltin_related
    {function : Builtin} {arguments : List Value}
    (refl : ∀ store, related store store)
    (effects : ∀ before later,
      Effect limit ⟨_, site, .apply span name (.builtin function) arguments, machine⟩ before
        later →
      related before later) :
    related machine.store
      (Ending.machine (callBuiltin span name function arguments machine)).store := by
  unfold callBuiltin
  split
  · exact refl _
  rw [Action.store_bind_run]
  cases applied : Builtin.apply machine.store function arguments with
  | error cause => exact refl _
  | ok answer =>
    obtain ⟨result, after⟩ := answer
    exact effects _ _ (.builtin applied)

/-- What relates the stores before and after every effect within an evaluation relates the
store on which the evaluation starts to the store on which it ends. -/
theorem Evaluates.relates
    {shape : Shape} {site : Site} {task : Task shape} {machine : Machine}
    {ending : Ending shape.Answer}
    (derivation : Evaluates limit site task machine ending)
    (refl : ∀ store, related store store)
    (trans : ∀ {first second third}, related first second → related second third →
      related first third)
    (effects : ∀ inner before after, Within limit ⟨_, site, task, machine⟩ inner →
      Effect limit inner before after → related before after) :
    related machine.store (Ending.machine ending).store := by
  have own {call : Call}
      (effects : ∀ inner before after, Within limit call inner →
        Effect limit inner before after → related before after) :
      ∀ before after, Effect limit call before after → related before after :=
    fun before after => effects call before after .refl
  have below {outer inner : Call}
      (effects : ∀ inner before after, Within limit outer inner →
        Effect limit inner before after → related before after)
      (demanded : Demands limit outer inner)
      (passed : Passes limit outer inner) :
      ∀ call before after, Within limit inner call →
        Effect limit call before after → related before after :=
    fun call before after within =>
      effects call before after (.head ⟨demanded, passed⟩ within)
  induction derivation with
  | int | string | char | bool | noExprs | noStmts | noMembers | noEntries | overflow
  | stmtOverflow | applyOther | applyMissing | applyArity | applyRefused => exact refl _
  | float => exact own effects _ _ .float
  | function => exact own effects _ _ .function
  | @identifier site _ name machine =>
    cases found : machine.store.lookup site name <;> exact refl _
  | array evaluated elements =>
    have gathered := elements (below effects .arrayElements trivial)
    exact trans gathered (own effects _ _ (.array evaluated))
  | arrayFails _ elements => exact elements (below effects .arrayElements trivial)
  | set evaluated elements =>
    have gathered := elements (below effects .setElements trivial)
    exact trans gathered (own effects _ _ (.set evaluated))
  | setFails _ elements => exact elements (below effects .setElements trivial)
  | map evaluated pairs =>
    have gathered := pairs (below effects .mapEntries trivial)
    exact trans gathered (own effects _ _ (.map evaluated))
  | mapFails _ pairs => exact pairs (below effects .mapEntries trivial)
  | binary leftEvaluated rightEvaluated left right =>
    have between := left (below effects .left trivial)
    have after := right (below effects (.right leftEvaluated) trivial)
    exact trans (trans between after)
      (own effects _ _ (.operator leftEvaluated rightEvaluated))
  | leftFails _ left => exact left (below effects .left trivial)
  | rightFails leftEvaluated _ left right =>
    have between := left (below effects .left trivial)
    exact trans between (right (below effects (.right leftEvaluated) trivial))
  | calleeFails _ callee | notCallable _ _ callee =>
    exact callee (below effects .callee trivial)
  | argumentsFail calleeEvaluated callable _ callee arguments =>
    have between := callee (below effects .callee trivial)
    exact trans between
      (arguments (below effects (.arguments calleeEvaluated) ⟨_, _, calleeEvaluated, callable⟩))
  | call calleeEvaluated callable argumentsEvaluated _ callee arguments applied =>
    have between := callee (below effects .callee trivial)
    have after :=
      arguments (below effects (.arguments calleeEvaluated) ⟨_, _, calleeEvaluated, callable⟩)
    exact trans (trans between after)
      (applied (below effects (.apply calleeEvaluated argumentsEvaluated)
        ⟨_, _, calleeEvaluated, callable⟩))
  | targetFails _ target => exact target (below effects .target trivial)
  | keyFails targetEvaluated _ target key =>
    have between := target (below effects .target trivial)
    exact trans between (key (below effects (.key targetEvaluated) trivial))
  | @index _ _ _ _ _ _ after targetValue keyValue targetEvaluated _ target key =>
    have between := target (below effects .target trivial)
    have found := trans between (key (below effects (.key targetEvaluated) trivial))
    cases Builtin.element "index" after.store targetValue keyValue <;> exact found
  | blockFails _ statements | block _ statements | emptyBlock _ statements =>
    exact trans (own effects _ _ .block) (statements (below effects .block trivial))
  | exprs firstEvaluated _ first rest | laterExprFails firstEvaluated _ first rest =>
    have between := first (below effects .firstExpr trivial)
    exact trans between (rest (below effects (.restExprs firstEvaluated) trivial))
  | firstExprFails _ first => exact first (below effects .firstExpr trivial)
  | memberFails _ first => exact first (below effects .firstMember trivial)
  | members firstEvaluated _ first rest =>
    have between := first (below effects .firstMember trivial)
    exact trans between (rest (below effects (.restMembers firstEvaluated) trivial))
  | entryKeyFails _ key => exact key (below effects .entryKey trivial)
  | entryValueFails keyEvaluated _ key value | duplicateKey keyEvaluated _ _ key value =>
    have between := key (below effects .entryKey trivial)
    exact trans between (value (below effects (.entryValue keyEvaluated) trivial))
  | entries keyEvaluated valueEvaluated vacant _ key value rest =>
    have between := key (below effects .entryKey trivial)
    have after := value (below effects (.entryValue keyEvaluated) trivial)
    exact trans (trans between after)
      (rest (below effects (.restEntries keyEvaluated valueEvaluated) ⟨_, rfl, vacant⟩))
  | functionRefused _ refused =>
    obtain ⟨rfl, _⟩ := Action.of_define_error refused
    exact refl _
  | functionFails isFunction defined evaluated _ =>
    obtain ⟨_, _, _, rfl⟩ := exists_of_isFunction isFunction
    obtain ⟨allowed, rfl⟩ := Action.of_define_ok defined
    obtain ⟨short, _, rfl⟩ := visit_function_fails evaluated
    exact own effects _ _ (.functionStruck allowed short)
  | functionBinding isFunction defined evaluated _ =>
    obtain ⟨_, _, _, rfl⟩ := exists_of_isFunction isFunction
    obtain ⟨allowed, rfl⟩ := Action.of_define_ok defined
    obtain ⟨fits, rfl, rfl⟩ := visits_function evaluated
    have effect := own effects _ _ (.functionBinding allowed fits)
    simpa only [Store.closures_bind, scope_inside, Ending.machine] using effect
  | bindingFails notFunction _ value =>
    exact value (below effects .boundValue (by simp [Passes, notFunction]))
  | binding notFunction evaluated value =>
    have after := value (below effects .boundValue (by simp [Passes, notFunction]))
    exact Action.define_ends (motive := fun ending => related _ ending.machine.store)
      (fun allowed => trans after (own effects _ _ (.binding evaluated allowed))) fun _ => after
  | assignmentFails _ value => exact value (below effects .assignedValue trivial)
  | assignment evaluated value =>
    have after := value (below effects .assignedValue trivial)
    exact Action.assign_ends (motive := fun ending => related _ ending.machine.store)
      (fun _ found => trans after (own effects _ _ (.assignment evaluated found))) fun _ => after
  | expression _ value => exact value (below effects .expression trivial)
  | stmtFails _ first => exact first (below effects .firstStmt trivial)
  | stmts firstEvaluated _ first rest =>
    have between := first (below effects .firstStmt trivial)
    exact trans between (rest (below effects (.restStmts firstEvaluated) trivial))
  | visit fits _ root => exact root (below effects (.visit fits) trivial)
  | visitStmt fits _ root => exact root (below effects (.visitStmt fits) trivial)
  | applyBuiltin => exact callBuiltin_related refl (own effects)
  | parametersFail found fitting _ bound =>
    have entered := own effects _ _ (.enter found fitting)
    rw [bound] at entered
    exact entered
  | applyClosure found fitting within bound _ body =>
    have entered := own effects _ _ (.enter found fitting)
    rw [bound] at entered
    have after := body (below effects (.body found within bound) ⟨_, found, fitting⟩)
    rw [Ending.machine_leave]
    exact trans entered after

end

/-- How the execution of statements ends: it is refused at once, or it is an evaluation. -/
inductive Executes (limit : Nat) (site : Site) (statements : List Stmt) (machine : Machine) :
    Ending (Option Value) → Prop where
  | refused :
      mostStack < 1000 + 32 * limit →
      Executes limit site statements machine (.error (.abort .stackReservation) machine)
  | evaluated
      {ending : Ending (Option Value)} :
      1000 + 32 * limit ≤ mostStack →
      Evaluates limit site (.stmts none statements) machine ending →
      Executes limit site statements machine ending

theorem executes_executeAt
    (limit : Nat)
    (site : Site)
    (statements : List Stmt)
    (machine : Machine) :
    Executes limit site statements machine (executeAt limit site statements machine) := by
  unfold executeAt
  split
  · next refused => exact .refused refused
  · next starts => exact .evaluated (Nat.not_lt.mp starts) (evaluates_iff_run.mpr rfl)

theorem executes_execute
    (limit : Nat)
    (scope : Scope)
    (statements : List Stmt)
    (machine : Machine) :
    Executes limit (startSite limit scope) statements machine
      (execute limit scope statements machine) :=
  executes_executeAt limit (startSite limit scope) statements machine

end Evaluation

end Offside
