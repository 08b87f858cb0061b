import Offside.Proofs.Evaluation.Derivation

namespace Offside

/-!
# How actions run

An action that is followed by another one runs it where it ends, unless it fails.  Most
actions are quiet: they may add frames, arrays and functions and they may bind names, but
they leave every map, every set and the call depth as they are.
-/

variable {α β : Type} {machine after : Machine} {action : Action α} {next : α → Action β}

namespace Action

/-- After an action that succeeds, the next one starts where it ended. -/
theorem bind_of_ok
    {value : α}
    (succeeds : action machine = .ok value after) :
    (action >>= next) machine = next value after := by
  simp only [bind, EStateM.bind, succeeds]

/-- An action that fails is the last one. -/
theorem bind_of_error
    {reason : Failure}
    (fails : action machine = .error reason after) :
    (action >>= next) machine = .error reason after := by
  simp only [bind, EStateM.bind, fails]

@[simp] theorem store_bind_run (next : Store → Action β) (machine : Machine) :
    (store >>= next) machine = next machine.store machine := rfl

@[simp] theorem add_run (extend : Store → α × Store) (machine : Machine) :
    add extend machine =
      .ok (extend machine.store).1 ⟨(extend machine.store).2, machine.depth⟩ := rfl

/-- An action inside a function body runs one level deeper and comes back. -/
theorem deeper_run (body : Action α) (machine : Machine) :
    deeper body machine =
      Evaluation.Ending.leave (body ⟨machine.store, machine.depth + 1⟩) := by
  unfold deeper
  cases body ⟨machine.store, machine.depth + 1⟩ <;> rfl

end Action

namespace Operator

/-- An operator is none of the comparisons. -/
def Calculates (operator : TokenKind) : Prop :=
  ∀ mark ∈ [Mark.equal, .notEqual, .less, .greater, .lessEqual, .greaterEqual],
    operator ≠ .mark mark

/-- What an operator on two values comes to. -/
inductive Applies (operator : TokenKind) (span : Span) (left right : Value) :
    Action Value → Prop where
  | compared (answer : Bool → Bool) :
      Applies operator span left right
        (do return .bool (answer ((← Action.store).equal left right)))
  | ordered (answer : Bool) : Applies operator span left right (pure (.bool answer))
  | texts (joined : Text) : Applies operator span left right (pure (.str joined))
  | arrays (first second : Nat) :
      Applies operator span left right (do
        let store ← Action.store
        Action.add (·.addArray (store.items first ++ store.items second)))
  | integers (first second : Int) :
      Calculates operator →
      Applies operator span left right
        (do return .int (← Action.check (some span) (Integer.apply operator first second)))
  | floats (number : Float) :
      Applies operator span left right (Action.add (·.addFloat number))
  | floatsFail
      {first second : Float} {reason : Failure} :
      Calculates operator →
      (∀ integer other, left = .int integer → right ≠ .int other) →
      asFloat? left = some first →
      asFloat? right = some second →
      floatResult operator span first second = .error reason →
      Applies operator span left right (throw reason)
  | refused :
      Applies operator span left right
        (Action.fail (some span) (.operandKinds operator left.kind right.kind))

theorem applies_apply (operator : TokenKind) (span : Span) (left right : Value) :
    Applies operator span left right (apply operator span left right) := by
  unfold apply
  split
  · exact .compared id
  · exact .compared not
  iterate 4
    split
    · exact .ordered _
    · exact .refused
  have calculates : Calculates operator := by simp_all [Calculates]
  split
  · next joinable =>
    unfold joined? at joinable
    split at joinable
    · split at joinable
      · cases joinable
        exact .texts _
      · split at joinable
        · cases joinable
          exact .arrays _ _
        · cases joinable
    · cases joinable
  · next numeric =>
    unfold arithmetic? at numeric
    split at numeric
    · cases numeric
      exact .integers _ _ calculates
    · next notBoth =>
      split at numeric
      · next isFirst isSecond =>
        cases numeric
        split
        · exact .floats _
        · next failed => exact .floatsFail calculates notBoth isFirst isSecond failed
      · cases numeric
  · exact .refused

end Operator

/-- Nothing changes between two machines but frames, arrays, functions and the number of
results that are not numbers. -/
structure Machine.Quiet (before after : Machine) : Prop where
  depth : after.depth = before.depth
  maps : after.store.maps = before.store.maps
  sets : after.store.sets = before.store.sets

namespace Machine.Quiet

theorem refl (machine : Machine) : Quiet machine machine :=
  ⟨rfl, rfl, rfl⟩

theorem trans
    {first second third : Machine}
    (earlier : Quiet first second)
    (later : Quiet second third) :
    Quiet first third :=
  ⟨later.depth.trans earlier.depth, later.maps.trans earlier.maps,
    later.sets.trans earlier.sets⟩

end Machine.Quiet

open Evaluation (Ending)

/-- Whether an action is quiet, also when it fails. -/
def Action.Quiet {α : Type} (action : Action α) : Prop :=
  ∀ machine, Machine.Quiet machine (Ending.machine (action machine))

namespace Action.Quiet

/-- The machine at the end of a quiet action. -/
theorem ends
    {ending : Ending α}
    (quiet : Action.Quiet action)
    (ran : action machine = ending) :
    Machine.Quiet machine (Ending.machine ending) :=
  ran ▸ quiet machine

theorem depth_ok
    {value : α}
    (quiet : Action.Quiet action)
    (ran : action machine = .ok value after) :
    after.depth = machine.depth :=
  (quiet.ends ran).depth

theorem pure (value : α) : Action.Quiet (Pure.pure value : Action α) :=
  fun machine => .refl machine

theorem throw (reason : Failure) : Action.Quiet (MonadExcept.throw reason : Action α) :=
  fun machine => .refl machine

theorem fail (span : Option Span) (cause : RuntimeCause) :
    Action.Quiet (Action.fail span cause : Action α) :=
  fun machine => .refl machine

theorem check (span : Option Span) (result : Except RuntimeCause α) :
    Action.Quiet (Action.check span result) := by
  cases result with
  | ok value => exact fun machine => .refl machine
  | error cause => exact fun machine => .refl machine

/-- Quiet actions in a row are quiet. -/
theorem bind
    (first : Action.Quiet action)
    (second : ∀ value, Action.Quiet (next value)) :
    Action.Quiet (action >>= next) := by
  intro machine
  have firstQuiet := first machine
  cases ran : action machine with
  | ok value after =>
    rw [ran] at firstQuiet
    rw [Action.bind_of_ok ran]
    exact firstQuiet.trans (second value after)
  | error reason after =>
    rw [ran] at firstQuiet
    rw [Action.bind_of_error ran]
    exact firstQuiet

theorem storeBind {next : Store → Action β} (second : ∀ store, Action.Quiet (next store)) :
    Action.Quiet (Action.store >>= next) :=
  fun machine => second machine.store machine

theorem addArray (items : List Value) :
    Action.Quiet (Action.add (·.addArray items)) :=
  fun _ => ⟨rfl, rfl, rfl⟩

theorem addFloat (number : Float) :
    Action.Quiet (Action.add (·.addFloat number)) := by
  intro machine
  simp only [Action.add_run, Store.addFloat]
  split <;> exact ⟨rfl, rfl, rfl⟩

theorem bindName (scope : Scope) (name : Text) (slot : Slot) :
    Action.Quiet (Action.change (·.bind scope name slot)) := by
  intro machine
  cases scope <;> exact ⟨rfl, rfl, rfl⟩

theorem define (span : Option Span) (scope : Scope) (name : Text) (slot : Slot) :
    Action.Quiet (Action.define span scope name slot) := by
  refine .storeBind fun store => ?_
  split
  · exact .fail span _
  · exact .bindName scope name slot

theorem assign (span : Option Span) (scope : Scope) (name : Text) (value : Value) :
    Action.Quiet (Action.assign span scope name value) := by
  refine .storeBind fun store => ?_
  exact .bind (.check span _) fun _ _ => ⟨rfl, rfl, rfl⟩

/-- Binding the parameters of a function only binds names. -/
theorem bindParameters (scope : Scope) (bindings : List (Text × Value)) :
    Action.Quiet (Evaluation.bindParameters scope bindings) := by
  induction bindings with
  | nil => exact .pure ()
  | cons binding rest hypothesis =>
    exact .bind (.define none scope _ _) fun _ => hypothesis

/-- No operator changes a collection. -/
theorem operator (operator : TokenKind) (span : Span) (left right : Value) :
    Action.Quiet (Operator.apply operator span left right) := by
  have applies := Operator.applies_apply operator span left right
  generalize Operator.apply operator span left right = action at applies ⊢
  cases applies with
  | compared => exact .storeBind fun _ => .pure _
  | ordered | texts => exact .pure _
  | arrays => exact .storeBind fun _ => .addArray _
  | integers => exact .bind (.check _ _) fun _ => .pure _
  | floats => exact .addFloat _
  | floatsFail => exact .throw _
  | refused => exact .fail _ _

end Action.Quiet

/-- A builtin leaves the call depth as it is. -/
theorem Evaluation.callBuiltin_depth
    (span : Span)
    (name : Text)
    (function : Builtin)
    (arguments : List Value)
    (machine : Machine) :
    (Ending.machine (callBuiltin span name function arguments machine)).depth =
      machine.depth := by
  unfold callBuiltin
  split
  · rfl
  · rw [Action.store_bind_run]
    cases Builtin.apply machine.store function arguments <;> rfl

end Offside
