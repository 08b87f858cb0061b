import Offside.Proofs.Bindings.Frames
import Offside.Proofs.Failures.Located
import Offside.Proofs.Keys.Snapshot

namespace Offside

/-!
# What changes frames

Blocks and calls open frames, calls bind parameters in the frames that they open, and
statements bind names in their own frame or assign to a name that is in scope.  Nothing else
changes a frame.  So what an evaluation does to the frames that were there before it is done
by its assignments and, if it executes statements in its own scope, by its bindings in the
innermost frame.  A name is left without a value only where the host stack overflows between
the binding of a function and the making of it, and then the whole evaluation fails.
-/

variable {place : Nat} {mutable : Bool} {value : Value}

/-- A builtin changes no frame and no function. -/
theorem Builtin.apply_keeps
    {store after : Store} {function : Builtin} {arguments : List Value} {result : Value}
    (applied : Builtin.apply store function arguments = .ok (result, after)) :
    after.frames = store.frames ∧ after.closures = store.closures := by
  cases Builtin.applies_of_apply applied <;> exact ⟨rfl, rfl⟩

/-- An operator changes no frame and no function. -/
theorem Operator.Ends.keeps
    {machine : Machine} {ending : Evaluation.Ending Value}
    (ends : Operator.Ends machine ending) :
    (Evaluation.Ending.machine ending).store.frames = machine.store.frames ∧
      (Evaluation.Ending.machine ending).store.closures = machine.store.closures := by
  cases ends with
  | answer | array | refused => exact ⟨rfl, rfl⟩
  | number =>
    simp only [Action.add_run, Evaluation.Ending.machine, Store.addFloat]
    split <;> exact ⟨rfl, rfl⟩

namespace Store

variable {cause : FrameChange → Prop} {store after : Store} {scope : Scope} {name : Text}

/-- A name that resolves is bound in a frame of the scope. -/
theorem slot?_of_resolve?
    {slot : Slot}
    (resolved : store.resolve? scope name = some (place, slot)) :
    place ∈ scope ∧ store.slot? place name = some slot := by
  obtain ⟨frame, member, found⟩ := List.exists_of_findSome?_eq_some resolved
  obtain ⟨bound, here, same⟩ := Option.map_eq_some_iff.mp found
  cases same
  exact ⟨member, here⟩

/-- What is assigned to is a mutable binding of the name in a frame of the scope. -/
theorem slot?_of_assignedFrame (assigned : store.assignedFrame scope name = .ok place) :
    place ∈ scope ∧ ∃ slot, store.slot? place name = some slot ∧ slot.mutable = true := by
  unfold assignedFrame at assigned
  split at assigned
  · cases assigned
  · rename_i found slot resolved
    split at assigned
    · rename_i mutable
      cases assigned
      obtain ⟨member, bound⟩ := slot?_of_resolve? resolved
      exact ⟨member, slot, bound, mutable⟩
    · cases assigned

/-- Binding a name that may be bound is one change, or none if there is no frame to bind it
in. -/
theorem Evolves.bind
    {value : Option Value}
    (allowed : store.bindingRefused? scope name = none)
    (caused : ∀ place, scope.head? = some place → cause (.bound place name mutable value))
    (same : after.frames = (store.bind scope name ⟨value, mutable⟩).frames) :
    store.Evolves cause after := by
  cases scope with
  | nil => exact .unchanged same
  | cons place outer =>
    cases found : store.frame? place with
    | none =>
      refine .unchanged (same.trans (Array.ext_getElem? fun query => ?_))
      simp only [Store.bind, modifyFrame, Array.getElem?_modify]
      split
      · rename_i here
        rw [← here, show store.frames[place]? = none from found]
        rfl
      · rfl
    | some frame =>
      refine .once (caused place rfl) (.bound found ?_ same)
      simpa [bindingRefused?, slot?, found] using allowed

/-- Giving a name its value after it was bound ends as binding it with the value. -/
theorem frames_fill_bind (allowed : store.bindingRefused? scope name = none) :
    ((store.bind scope name ⟨none, mutable⟩).fill scope name value).frames =
      (store.bind scope name ⟨some value, mutable⟩).frames := by
  cases scope with
  | nil => rfl
  | cons place outer =>
    refine Array.ext_getElem? fun query => ?_
    simp only [bind, fill, modifyFrame, Array.getElem?_modify]
    split
    · rename_i here
      subst here
      cases found : store.frames[place]? with
      | none => rfl
      | some frame =>
        have fresh : frame.slot? name = none := by
          simpa [bindingRefused?, slot?, frame?, found] using allowed
        simp [Frame.fill_bind_of_fresh fresh]
    · rfl

end Store

namespace Evaluation

variable {outer inner : Call}

/-- Binding parameters in a frame binds each of them there, up to the first that is
refused. -/
theorem bindParameters_evolves
    {cause : FrameChange → Prop}
    (place : Nat)
    (outer : Scope)
    (bindings : List (Text × Value))
    (machine : Machine)
    (caused : ∀ name value, (name, value) ∈ bindings →
      cause (.bound place name false (some value))) :
    machine.store.Evolves cause
      (Ending.machine (bindParameters (place :: outer) bindings machine)).store := by
  refine bindParameters_keeps (.refl cause _) fun name value store member evolves allowed => ?_
  refine evolves.trans (.bind allowed ?_ rfl)
  rintro _ ⟨⟩
  exact caused name value member

/-- A call opens a frame and binds its parameters there. -/
theorem entered_evolves
    {cause : FrameChange → Prop} {name : Text} {outer : Scope} {bindings : List (Text × Value)}
    {machine : Machine}
    (opened : cause (.opened name))
    (caused : ∀ parameter value, (parameter, value) ∈ bindings →
      cause (.bound machine.store.frames.size parameter false (some value))) :
    machine.store.Evolves cause
      (Ending.machine (bindParameters (machine.store.frames.size :: outer) bindings
        ⟨(machine.store.addFrame name).2, machine.depth⟩)).store := by
  have first : machine.store.Evolves cause (machine.store.addFrame name).2 :=
    .once opened (.opened rfl)
  exact first.trans (bindParameters_evolves _ _ _ ⟨_, machine.depth⟩ caused)

/-- The change that an evaluation itself makes to the frames. -/
inductive Makes (limit : Nat) : Call → FrameChange → Prop where
  | block
      {site : Site} {span : Span} {statements : List Stmt} {machine : Machine} :
      Makes limit ⟨_, site, .expr (.block span statements), machine⟩ (.opened "block")
  | call
      {site : Site} {span : Span} {name : Text} {index : Nat} {closure : Closure}
      {arguments : List Value} {machine : Machine} :
      machine.store.closures[index]? = some closure →
      arguments.length = closure.parameters.length →
      Makes limit ⟨_, site, .apply span name (.closure index) arguments, machine⟩
        (.opened name)
  | parameter
      {site : Site} {span : Span} {name : Text} {index : Nat} {closure : Closure}
      {arguments : List Value} {machine : Machine} {parameter : Text} {value : Value} :
      machine.store.closures[index]? = some closure →
      arguments.length = closure.parameters.length →
      (parameter, value) ∈ closure.parameters.zip arguments →
      Makes limit ⟨_, site, .apply span name (.closure index) arguments, machine⟩
        (.bound machine.store.frames.size parameter false (some value))
  | binding
      {site : Site} {place : Nat} {span : Span} {mutable : Bool} {name : Text} {value : Expr}
      {machine after : Machine} {result : Value} :
      site.scope.head? = some place →
      Evaluates limit (site.inside 2) (.visit value) machine (.ok result after) →
      Makes limit ⟨_, site, .stmt (.binding span mutable name value), machine⟩
        (.bound place name mutable (some result))
  | struck
      {site : Site} {place : Nat} {span : Span} {mutable : Bool} {name : Text} {value : Expr}
      {machine : Machine} :
      site.scope.head? = some place →
      machine.store.bindingRefused? site name = none →
      value.isFunction = true →
      (site.inside 2).room < value.reach →
      Makes limit ⟨_, site, .stmt (.binding span mutable name value), machine⟩
        (.bound place name mutable none)
  | assignment
      {site : Site} {span : Span} {target : Text} {value : Expr} {machine after : Machine}
      {result : Value} {place : Nat} :
      Evaluates limit (site.inside 1) (.visit value) machine (.ok result after) →
      after.store.assignedFrame site target = .ok place →
      Makes limit ⟨_, site, .stmt (.assignment span target value), machine⟩
        (.assigned place target result)

/-- The change is made within an evaluation. -/
def Causes (limit : Nat) (call : Call) (change : FrameChange) : Prop :=
  ∃ inner, Within limit call inner ∧ Makes limit inner change

/-- The effect of an evaluation on the frames is the changes that it makes. -/
theorem Effect.evolves
    {limit : Nat} {call : Call} {before after : Store}
    (effect : Effect limit call before after) :
    before.Evolves (Makes limit call) after := by
  cases effect with
  | @float _ _ number machine =>
    exact .unchanged (@Operator.Ends.number machine number).keeps.1
  | array | set | map | function => exact .unchanged rfl
  | operator => exact .unchanged (Operator.apply_modest _ _ _ _ _).keeps.1
  | block => exact .once .block (.opened rfl)
  | @functionBinding site _ _ mutable name parameters body machine allowed fits =>
    have sameFrames : ∀ (store : Store) (scope : Scope),
        (((store.bind scope name ⟨none, mutable⟩).addClosure ⟨parameters, body, scope⟩).2.fill
          scope name (.closure machine.store.closures.size)).frames =
        ((store.bind scope name ⟨none, mutable⟩).fill scope name
          (.closure machine.store.closures.size)).frames := by
      intro store scope
      cases scope <;> rfl
    refine .bind allowed ?_ ((sameFrames _ _).trans (Store.frames_fill_bind allowed))
    exact fun place head => .binding head (.visit fits .function)
  | functionStruck allowed short =>
    exact .bind allowed (fun place head => .struck head allowed rfl short) rfl
  | binding evaluated allowed =>
    exact .bind allowed (fun place head => .binding head evaluated) rfl
  | assignment evaluated assigned =>
    obtain ⟨_, slot, bound, mutable⟩ := Store.slot?_of_assignedFrame assigned
    exact .once (.assignment evaluated assigned) (.assigned bound mutable rfl)
  | builtin applied => exact .unchanged (Builtin.apply_keeps applied).1
  | enter found fitting =>
    exact entered_evolves (.call found fitting) fun _ _ => .parameter found fitting

variable {limit : Nat} {shape : Shape} {site : Site} {task : Task shape} {machine : Machine}

/-- An evaluation does to the frames what is made within it. -/
theorem Evaluates.evolves
    {ending : Ending shape.Answer}
    (derivation : Evaluates limit site task machine ending) :
    machine.store.Evolves (Causes limit ⟨_, site, task, machine⟩)
      (Ending.machine ending).store := by
  refine derivation.relates (.refl _) .trans fun inner before after within effect => ?_
  exact effect.evolves.mono fun change made => ⟨inner, within, made⟩

/-- A function binding that is struck by an overflow of the host stack fails with it. -/
theorem Makes.fails
    {name : Text}
    (makes : Makes limit inner (.bound place name mutable none)) :
    ∃ after, Evaluates limit inner.site inner.task inner.machine
      (.error (hostOverflow limit) after) := by
  cases makes with
  | @struck site _ span mutable name value machine _ allowed isFunction short =>
    have defined : Action.define (some span) site name ⟨none, mutable⟩ machine =
        .ok () ⟨machine.store.bind site name ⟨none, mutable⟩, machine.depth⟩ := by
      unfold Action.define
      rw [Action.store_bind_run, allowed]
      rfl
    exact ⟨_, .functionFails isFunction defined (.overflow short)⟩

/-- An evaluation that leaves a new binding without a value fails for the host stack. -/
theorem Evaluates.overflows_of_struck
    {name : Text} {ending : Ending shape.Answer}
    (derivation : Evaluates limit site task machine ending)
    (struck : Causes limit ⟨_, site, task, machine⟩ (.bound place name mutable none)) :
    Ending.reason? ending = some (hostOverflow limit) := by
  obtain ⟨inner, within, makes⟩ := struck
  obtain ⟨_, failed⟩ := makes.fails
  obtain ⟨last, fails⟩ := Within.fails within failed
  cases derivation.eq_of_evaluates fails
  rfl

/-- Along an evaluation that succeeds, names are bound with values. -/
theorem Evaluates.evolves_complete
    {answer : shape.Answer} {after : Machine}
    (derivation : Evaluates limit site task machine (.ok answer after)) :
    machine.store.Evolves FrameChange.Complete after.store := by
  refine derivation.evolves.mono fun change caused => ?_
  unfold FrameChange.Complete
  split
  · cases derivation.overflows_of_struck caused
  · trivial

/-- The evaluation `inner` gives the value of a name that `outer` has bound without one. -/
inductive BindsFirst : (outer inner : Call) → Prop where
  | intro
      {site : Site} {span : Span} {mutable : Bool} {name : Text} {value : Expr}
      {machine between : Machine} :
      Action.define (some span) site name ⟨none, mutable⟩ machine = .ok () between →
      BindsFirst ⟨_, site, .stmt (.binding span mutable name value), machine⟩
        ⟨_, site.inside 2, .visit value, between⟩

/-- Up to a demanded evaluation the frames change as usual, or a name is bound without a
value. -/
theorem Demands.evolves (demand : Demands limit outer inner) :
    outer.machine.store.Evolves FrameChange.Complete inner.machine.store ∨
      BindsFirst outer inner := by
  cases demand with
  | arrayElements | setElements | mapEntries | left | callee | target | firstExpr
  | firstMember | entryKey | boundValue | assignedValue | expression | firstStmt | visit
  | visitStmt => exact .inl (.refl _ _)
  | right before | arguments before | key before | restExprs before | restMembers before
  | entryValue before | restStmts before => exact .inl before.evolves_complete
  | apply first second | restEntries first second =>
    exact .inl (first.evolves_complete.trans second.evolves_complete)
  | block =>
    have complete : FrameChange.Complete (.opened "block") := trivial
    exact .inl (.once complete (.opened rfl))
  | boundFunction defined => exact .inr (.intro defined)
  | @body _ _ name _ closure arguments machine bound found within ran =>
    have entered := @entered_evolves FrameChange.Complete name closure.scope
      (closure.parameters.zip arguments) machine trivial (fun _ _ _ => trivial)
    rw [ran] at entered
    exact .inl entered

/-- A demanded evaluation starts with at least as many frames. -/
theorem Demands.size_le (demand : Demands limit outer inner) :
    outer.machine.store.frames.size ≤ inner.machine.store.frames.size := by
  rcases demand.evolves with evolves | bindsFirst
  · exact evolves.size_le
  · obtain @⟨⟨scope, _⟩, _, _, _, _, _, _, defined⟩ := bindsFirst
    obtain ⟨_, rfl⟩ := Action.of_define_ok defined
    cases scope <;> simp [Store.bind, Store.modifyFrame]

/-- An evaluation that takes place within another starts with at least as many frames. -/
theorem Within.size_le (within : Within limit outer inner) :
    outer.machine.store.frames.size ≤ inner.machine.store.frames.size := by
  induction within with
  | refl => exact Nat.le_refl _
  | tail _ performs hypothesis =>
    exact Nat.le_trans hypothesis performs.demanded.size_le

/-- Whether a task executes statements in its own site. -/
def Task.declares : {shape : Shape} → Task shape → Bool
  | _, .stmt _ | _, .stmts _ _ | _, .visitStmt _ => true
  | _, _ => false

/-- Statements that are executed within an evaluation are so in a frame that is opened
within it, unless they are executed where it takes place itself. -/
theorem Within.opened_or_own
    (within : Within limit outer inner)
    (declares : inner.task.declares = true)
    (head : inner.site.scope.head? = some place) :
    outer.machine.store.frames.size ≤ place ∨
      (outer.task.declares = true ∧ inner.site = outer.site) := by
  induction within using Relation.ReflTransGen.head_induction_on with
  | refl => exact .inr ⟨declares, rfl⟩
  | head performs _ hypothesis =>
    obtain ⟨demand, _⟩ := performs
    rcases hypothesis with opened | ⟨own, here⟩
    · exact .inl (Nat.le_trans demand.size_le opened)
    cases demand with
    | firstStmt | restStmts | visitStmt => exact .inr ⟨rfl, here⟩
    | block =>
      rw [here] at head
      cases head
      exact .inl (Nat.le_refl _)
    | _ => cases own

/-- Within an evaluation names are bound only in frames that are opened within it and, if
it executes statements, in the innermost frame of its site. -/
theorem Causes.opened_or_own
    {call : Call} {name : Text} {value : Option Value}
    (causes : Causes limit call (.bound place name mutable value)) :
    call.machine.store.frames.size ≤ place ∨
      (call.task.declares = true ∧ call.site.scope.head? = some place) := by
  obtain ⟨inner, within, makes⟩ := causes
  cases makes with
  | parameter => exact .inl within.size_le
  | binding head | struck head =>
    exact (within.opened_or_own rfl head).imp_right fun ⟨own, same⟩ => ⟨own, same ▸ head⟩

end Evaluation

end Offside
