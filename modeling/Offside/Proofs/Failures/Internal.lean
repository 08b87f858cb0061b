import Offside.Proofs.Bindings.Causes
import Offside.Proofs.Failures.Origin
import Offside.Proofs.Syntax.Spans

namespace Offside

/-!
# Internal failures

Some failures would show a defect of the evaluator or of a tree rather than of a program: a
node without a value, an operator that is none, a name that is used before its definition is
completed, and a parameter that is bound twice.  Operators that have a precedence, builtins
and names whose bindings have values fail for other causes only.
-/

/-- Whether a cause would show a defect of the evaluator: a name "used before its definition
completed", an "unknown operator", or a node that it "cannot evaluate". -/
def RuntimeCause.isInternal : RuntimeCause → Bool
  | .unfinishedName _ | .unknownOperator _ | .notEvaluable _ => true
  | _ => false

/-- Whether a failure would show a defect of the evaluator.  Only the parameters of a call are
bound without a place at which it could fail. -/
def Failure.isInternal : Failure → Bool
  | .fault ⟨.runtime (.redefinition _), none, _⟩ => true
  | .fault ⟨.runtime cause, _, _⟩ => cause.isInternal
  | _ => false

/-- Whether a failure is that of a name which is used before its definition is completed. -/
def Failure.isUnfinished : Failure → Bool
  | .abort _ => false
  | .fault described =>
      match described.cause with
      | .runtime (.unfinishedName _) => true
      | _ => false

namespace Failure

theorem isInternal_of_isRuntime {failure : Failure} (notRuntime : failure.isRuntime = false) :
    failure.isInternal = false := by
  cases failure with
  | abort => rfl
  | fault fault =>
    obtain ⟨cause, span, line⟩ := fault
    cases cause with
    | runtime cause => cases notRuntime
    | lexical | syntactic | inconsistentDedent => rfl

theorem isInternal_spanned (cause : RuntimeCause) (span : Span) (line : Option Text) :
    isInternal (.fault ⟨.runtime cause, some span, line⟩) = cause.isInternal := by
  cases cause <;> rfl

@[simp] theorem isInternal_located (cause : RuntimeCause) (span : Span) :
    (cause.located span).isInternal = cause.isInternal :=
  isInternal_spanned cause span none

@[simp] theorem isInternal_attach (lines : List Text) (failure : Failure) :
    (failure.attach lines).isInternal = failure.isInternal := by
  cases failure with
  | abort => rfl
  | fault fault =>
    obtain ⟨cause, span, line⟩ := fault
    cases line with
    | some line => cases span <;> rfl
    | none =>
      cases span with
      | none => rfl
      | some span =>
        -- Only here is a line attached.
        cases cause with
        | runtime cause => exact (isInternal_spanned ..).trans (isInternal_spanned ..).symm
        | lexical | syntactic | inconsistentDedent => rfl

@[simp] theorem isUnfinished_attach (lines : List Text) (failure : Failure) :
    (failure.attach lines).isUnfinished = failure.isUnfinished := by
  cases failure with
  | abort => rfl
  | fault fault =>
    have sameCause : (fault.attach lines).cause = fault.cause := by
      unfold Fault.attach
      split <;> rfl
    simp only [attach, isUnfinished, sameCause]

end Failure

/-- Whether a result is one that a program can be blamed for. -/
def Expected {α : Type} (result : Except RuntimeCause α) : Prop :=
  ∀ cause, result = .error cause → cause.isInternal = false

namespace Expected

variable {α β : Type}

@[grind ←] theorem ok (value : α) : Expected (.ok value) := by
  intro cause failed
  cases failed

@[grind ←] theorem pure (value : α) : Expected (Pure.pure value) := by
  intro cause failed
  cases failed

@[grind ←] theorem error {cause : RuntimeCause} (blamable : cause.isInternal = false) :
    Expected (.error cause : Except RuntimeCause α) := by
  intro other failed
  cases failed
  exact blamable

@[grind ←] theorem bind
    {result : Except RuntimeCause α} {next : α → Except RuntimeCause β}
    (first : Expected result)
    (second : ∀ value, Expected (next value)) :
    Expected (result >>= next) := by
  intro cause failed
  cases result with
  | ok value => exact second value cause failed
  | error reason =>
    cases failed
    exact first _ rfl

/-! ## Builtins -/

@[grind ←] theorem elementIndex (context : String) (length : Nat) (value : Value) :
    Expected (Builtin.elementIndex context length value) := by
  unfold Builtin.elementIndex
  split
  · split
    · exact ok _
    · exact error rfl
  · exact error rfl

@[grind ←] theorem element (context : String) (store : Store) (collection key : Value) :
    Expected (Builtin.element context store collection key) := by
  unfold Builtin.element
  split
  · grind
  · grind
  · split
    · exact ok _
    · exact error rfl
  · exact error rfl

theorem builtin (store : Store) (function : Builtin) (arguments : List Value) :
    Expected (Builtin.apply store function arguments) := by
  unfold Builtin.apply Builtin.length Builtin.replace Builtin.append Builtin.adjoin Builtin.has
  grind [RuntimeCause.isInternal]

/-! ## Names -/

/-- A name whose bindings have values is defined or not. -/
theorem lookup {store : Store} (finished : store.Finished) (scope : Scope) (name : Text) :
    Expected (store.lookup scope name) := by
  unfold Store.lookup
  split
  · exact error rfl
  · rename_i place slot resolved
    split
    · exact ok _
    · rename_i noValue
      have hasValue := finished _ _ _ (Store.slot?_of_resolve? resolved).2
      rw [noValue] at hasValue
      cases hasValue

/-- A name for which an internal cause is given is bound, but has no value. -/
theorem unfinished_of_lookup
    {store : Store} {scope : Scope} {name : Text} {cause : RuntimeCause}
    (failed : store.lookup scope name = .error cause) :
    cause.isInternal = false ∨ cause = .unfinishedName name := by
  unfold Store.lookup at failed
  split at failed
  · cases failed
    exact .inl rfl
  · split at failed
    · cases failed
    · cases failed
      exact .inr rfl

theorem assignedFrame (store : Store) (scope : Scope) (name : Text) :
    Expected (store.assignedFrame scope name) := by
  unfold Store.assignedFrame
  grind [RuntimeCause.isInternal]

theorem bindingRefused
    {store : Store} {scope : Scope} {name : Text} {cause : RuntimeCause}
    (refused : store.bindingRefused? scope name = some cause) :
    cause.isInternal = false := by
  cases scope with
  | nil => cases refused
  | cons frame outer =>
    dsimp only [Store.bindingRefused?] at refused
    split at refused <;> cases refused
    rfl

/-! ## Operators -/

@[grind ←] theorem checked (result : Int) : Expected (Integer.checked result) := by
  unfold Integer.checked
  grind [RuntimeCause.isInternal]

@[grind ←] theorem powerFrom (steps : Nat) (result base : Int) (exponent : Nat) :
    Expected (Integer.powerFrom steps result base exponent) := by
  induction steps generalizing result base exponent with
  | zero => exact ok _
  | succ steps hypothesis =>
    unfold Integer.powerFrom
    grind

end Expected

/-- The operators of arithmetic. -/
inductive TokenKind.Arithmetic : TokenKind → Prop where
  | plus : Arithmetic (.mark .plus)
  | minus : Arithmetic (.mark .minus)
  | star : Arithmetic (.mark .star)
  | slash : Arithmetic (.mark .slash)
  | percent : Arithmetic (.mark .percent)
  | caret : Arithmetic (.mark .caret)

theorem Expected.integer
    {operator : TokenKind}
    (arithmetic : operator.Arithmetic)
    (left right : Int) :
    Expected (Integer.apply operator left right) := by
  cases arithmetic with
  | plus | minus | star => exact checked _
  | slash | percent =>
    unfold Integer.apply
    grind [RuntimeCause.isInternal]
  | caret =>
    cases right with
    | ofNat exponent => exact powerFrom (exponent.log2 + 1) 1 left exponent
    | negSucc _ => exact error rfl

theorem Expected.power (base exponent : Float) : Expected (Floating.power base exponent) := by
  unfold Floating.power
  grind [RuntimeCause.isInternal]

theorem Operator.isInternal_of_floatResult
    {operator : TokenKind} {span : Span} {left right : Float} {reason : Failure}
    (arithmetic : operator.Arithmetic)
    (failed : floatResult operator span left right = .error reason) :
    reason.isInternal = false := by
  cases arithmetic with
  | plus | minus | star => cases failed
  | slash =>
    dsimp only [floatResult] at failed
    split at failed <;> cases failed
    rfl
  | percent =>
    dsimp only [floatResult, Floating.remainder] at failed
    split at failed
    · cases failed
      rfl
    · split at failed
      · cases failed
      split at failed
      · cases failed
        rfl
      split at failed <;> cases failed
  | caret =>
    dsimp only [floatResult] at failed
    cases computed : Floating.power left right with
    | ok number =>
      rw [computed] at failed
      cases failed
    | error cause =>
      rw [computed] at failed
      cases failed
      exact (Failure.isInternal_located cause span).trans
        (Expected.power left right cause computed)

namespace Action

/-- Whether an action fails only for what a program can be blamed for. -/
def Blamable {α : Type} (action : Action α) : Prop :=
  ∀ machine reason after, action machine = .error reason after → reason.isInternal = false

namespace Blamable

variable {α β : Type}

theorem pure (value : α) : Blamable (Pure.pure value : Action α) := by
  intro machine reason after failed
  cases failed

theorem add (extend : Store → α × Store) : Blamable (Action.add extend) := by
  intro machine reason after failed
  cases failed

theorem throw {reason : Failure} (blamable : reason.isInternal = false) :
    Blamable (MonadExcept.throw reason : Action α) := by
  intro machine other after failed
  cases failed
  exact blamable

theorem check {result : Except RuntimeCause α} (expected : Expected result) (span : Span) :
    Blamable (Action.check (some span) result) := by
  intro machine reason after failed
  cases result with
  | ok value => cases failed
  | error cause =>
    cases failed
    exact (Failure.isInternal_located cause span).trans (expected cause rfl)

theorem bind
    {action : Action α} {next : α → Action β}
    (first : Blamable action)
    (second : ∀ value, Blamable (next value)) :
    Blamable (action >>= next) := by
  intro machine reason after failed
  cases ran : action machine with
  | ok value between =>
    rw [Action.bind_of_ok ran] at failed
    exact second value between reason after failed
  | error other between =>
    rw [Action.bind_of_error ran] at failed
    cases failed
    exact first machine _ _ ran

theorem fail {cause : RuntimeCause} (blamable : cause.isInternal = false) (span : Span) :
    Blamable (Action.fail (some span) cause : Action α) :=
  throw ((Failure.isInternal_located cause span).trans blamable)

/-- An operator that has a precedence compares or calculates. -/
theorem operator
    {operator : TokenKind}
    (known : operator.precedence?.isSome = true)
    (span : Span)
    (left right : Value) :
    Blamable (Operator.apply operator span left right) := by
  have arithmetical (calculates : Operator.Calculates operator) : operator.Arithmetic := by
    unfold TokenKind.precedence? at known
    split at known <;>
      first | contradiction | constructor | simp [Operator.Calculates] at calculates
  have applies := Operator.applies_apply operator span left right
  generalize Operator.apply operator span left right = action at applies ⊢
  cases applies with
  | compared | arrays =>
    intro machine reason after failed
    cases failed
  | ordered | texts => exact pure _
  | integers _ _ calculates =>
    exact bind (check (Expected.integer (arithmetical calculates) _ _) span) fun value => pure _
  | floats => exact add _
  | floatsFail calculates _ _ _ failed =>
    exact throw (Operator.isInternal_of_floatResult (arithmetical calculates) failed)
  | refused => exact fail rfl span

end Blamable

end Action

end Offside
