import Offside.Proofs.Failures.Origin

namespace Offside

/-!
# Where failures are located

What an evaluation itself fails for is a fault at its place, a fault without a place, or the
one abort of the arithmetic: an infinite dividend has no remainder.  And an evaluation fails
as soon as one that takes place within it does, for the same reason.
-/

namespace Operator

/-- The dividend is infinite and the divisor is a number other than zero.  Two integers are
never divided as floats. -/
structure InfiniteDividend (left right : Value) : Prop where
  floats : ∀ dividend divisor, left = .int dividend → right ≠ .int divisor
  divides : ∃ dividend divisor, asFloat? left = some dividend ∧ asFloat? right = some divisor ∧
    dividend.isInf = true ∧ dividend.isNaN = false ∧ divisor.isNaN = false ∧
    (divisor == 0.0) = false

theorem floatResult_error
    {operator : TokenKind} {span : Span} {left right : Float} {reason : Failure}
    (failed : floatResult operator span left right = .error reason) :
    (∃ cause, reason = RuntimeCause.located cause span) ∨
      (reason = .abort .remainderDomain ∧ operator = .mark .percent ∧ left.isInf = true ∧
        left.isNaN = false ∧ right.isNaN = false ∧ (right == 0.0) = false) := by
  unfold floatResult at failed
  simp only at failed
  split at failed
  · cases failed
  · cases failed
  · cases failed
  · split at failed <;> cases failed
    exact .inl ⟨_, rfl⟩
  · split at failed
    · cases failed
      exact .inl ⟨_, rfl⟩
    next nonzero =>
    unfold Floating.remainder at failed
    split at failed
    · cases failed
    next numbers =>
    split at failed
    · next infinite =>
        cases failed
        simp only [Bool.or_eq_true, not_or, Bool.not_eq_true] at numbers nonzero
        exact .inr ⟨rfl, rfl, infinite, numbers.1, numbers.2, nonzero⟩
    split at failed <;> cases failed
  · cases computed : Floating.power left right with
    | ok number =>
      rw [computed] at failed
      cases failed
    | error cause =>
      rw [computed] at failed
      cases failed
      exact .inl ⟨cause, rfl⟩
  · cases failed
    exact .inl ⟨_, rfl⟩

/-- Whether an action fails at a place only, or for an infinite dividend. -/
def FailsAt (operator : TokenKind) (span : Span) (left right : Value) (action : Action Value) :
    Prop :=
  ∀ machine reason after, action machine = .error reason after →
    (∃ cause, reason = RuntimeCause.located cause span) ∨
      (reason = .abort .remainderDomain ∧ operator = .mark .percent ∧ InfiniteDividend left right)

/-- An operator fails at its place, unless a dividend is infinite. -/
theorem apply_failsAt (operator : TokenKind) (span : Span) (left right : Value) :
    FailsAt operator span left right (apply operator span left right) := by
  have applies := applies_apply operator span left right
  generalize apply operator span left right = action at applies ⊢
  intro machine reason after failed
  cases applies with
  | compared | ordered | texts | arrays | floats => cases failed
  | integers first second =>
    cases applied : Integer.apply operator first second with
    | ok value =>
      rw [applied] at failed
      cases failed
    | error cause =>
      rw [applied] at failed
      cases failed
      exact .inl ⟨cause, rfl⟩
  | @floatsFail dividend divisor _ _ notInts isDividend isDivisor computed =>
    cases failed
    rcases floatResult_error computed with located | ⟨rfl, rfl, infinite⟩
    · exact .inl located
    · exact .inr ⟨rfl, rfl, notInts, dividend, divisor, isDividend, isDivisor, infinite⟩
  | refused =>
    cases failed
    exact .inl ⟨_, rfl⟩

/-- There is no remainder of an infinite dividend. -/
theorem apply_infiniteDividend
    {left right : Value}
    (infinite : InfiniteDividend left right)
    (span : Span)
    (machine : Machine) :
    apply (.mark .percent) span left right machine = .error (.abort .remainderDomain) machine := by
  obtain ⟨floats, dividend, divisor, isDividend, isDivisor, isInf, isNumber, divides, nonzero⟩ :=
    infinite
  have notJoined : joined? (.mark .percent) left right = none := by
    unfold joined?
    rw [if_neg (by decide)]
  have computed : floatResult (.mark .percent) span dividend divisor =
      .error (.abort .remainderDomain) := by
    unfold floatResult Floating.remainder
    simp only [nonzero, isNumber, divides, isInf, Bool.or_self, Bool.false_eq_true, if_false,
      if_true]
  have numeric : arithmetic? (.mark .percent) span left right =
      some (throw (.abort .remainderDomain)) := by
    unfold arithmetic?
    split
    · next first second => exact (floats first second rfl rfl).elim
    · rw [isDividend, isDivisor]
      simp only [computed]
  unfold apply
  simp only [notJoined, numeric]
  rfl

end Operator

namespace Evaluation

/-- Where an evaluation itself fails. -/
def Call.place? : Call → Option Span
  | ⟨_, _, .expr root, _⟩ => some root.span
  | ⟨_, _, .stmt root, _⟩ => some root.span
  | ⟨_, _, .entries _ (root :: _), _⟩ => some root.span
  | ⟨_, _, .apply span _ _ _, _⟩ => some span
  | _ => none

/-- The evaluation divides an infinite dividend for its remainder. -/
inductive DividesInfinity (limit : Nat) : Call → Prop where
  | remainder
      {site : Site} {span : Span} {left right : Expr} {machine between after : Machine}
      {leftValue rightValue : Value} :
      Evaluates limit (site.inside 2) (.visit left) machine (.ok leftValue between) →
      Evaluates limit (site.inside 2) (.visit right) between (.ok rightValue after) →
      Operator.InfiniteDividend leftValue rightValue →
      DividesInfinity limit ⟨_, site, .expr (.binary span left (.mark .percent) right), machine⟩

section

variable {limit : Nat} {reason : Failure} {site : Site} {machine after : Machine}

/-- A parameter that cannot be bound is refused without a place. -/
theorem bindParameters_error
    {scope : Scope} {bindings : List (Text × Value)}
    (failed : bindParameters scope bindings machine = .error reason after) :
    ∃ cause, reason = .fault ⟨.runtime cause, none, none⟩ := by
  induction bindings generalizing machine with
  | nil => cases failed
  | cons binding rest hypothesis =>
    obtain ⟨name, value⟩ := binding
    unfold bindParameters at failed
    cases ran : Action.define none scope name ⟨some value, false⟩ machine with
    | ok _ between =>
      rw [Action.bind_of_ok ran] at failed
      exact hypothesis failed
    | error refusal between =>
      rw [Action.bind_of_error ran] at failed
      cases failed
      obtain ⟨_, cause, _, rfl⟩ := Action.of_define_error ran
      exact ⟨cause, rfl⟩

/-- An evaluation itself fails at its place, without a place, or by dividing an infinite
dividend. -/
theorem Fails.located {call : Call} (fails : Fails limit call reason) :
    (∃ cause span, reason = RuntimeCause.located cause span ∧ call.place? = some span) ∨
      (∃ cause, reason = .fault ⟨.runtime cause, none, none⟩) ∨
      (reason = .abort .remainderDomain ∧ DividesInfinity limit call) := by
  cases fails with
  | overflow | stmtOverflow => exact .inr (.inl ⟨_, rfl⟩)
  | operator leftEvaluated rightEvaluated applied =>
    rcases Operator.apply_failsAt _ _ _ _ _ _ _ applied with ⟨cause, rfl⟩ | ⟨rfl, rfl, infinite⟩
    · exact .inl ⟨cause, _, rfl, rfl⟩
    · exact .inr (.inr ⟨rfl, .remainder leftEvaluated rightEvaluated infinite⟩)
  | parameters _ _ refused => exact .inr (.inl (bindParameters_error refused))
  | _ => exact .inl ⟨_, _, rfl, rfl⟩

/-- What ends in one way does not end in another. -/
theorem Evaluates.eq_of_evaluates
    {shape : Shape} {task : Task shape}
    {first second : Ending shape.Answer}
    (one : Evaluates limit site task machine first)
    (other : Evaluates limit site task machine second) :
    first = second :=
  one.run.symm.trans other.run

/-- An evaluation fails as soon as one that it performs does. -/
theorem Performs.fails
    {outer inner : Call}
    (performs : Performs limit outer inner)
    (failed : Evaluates limit inner.site inner.task inner.machine (.error reason after)) :
    ∃ last, Evaluates limit outer.site outer.task outer.machine (.error reason last) := by
  obtain ⟨demanded, passed⟩ := performs
  cases demanded with
  | arrayElements => exact ⟨after, .arrayFails failed⟩
  | setElements => exact ⟨after, .setFails failed⟩
  | mapEntries => exact ⟨after, .mapFails failed⟩
  | left => exact ⟨after, .leftFails failed⟩
  | right leftEvaluated => exact ⟨after, .rightFails leftEvaluated failed⟩
  | callee => exact ⟨after, .calleeFails failed⟩
  | arguments calleeEvaluated =>
    obtain ⟨value, between, evaluated, callable⟩ := passed
    cases calleeEvaluated.eq_of_evaluates evaluated
    exact ⟨after, .argumentsFail evaluated callable failed⟩
  | apply calleeEvaluated argumentsEvaluated =>
    obtain ⟨value, between, evaluated, callable⟩ := passed
    cases calleeEvaluated.eq_of_evaluates evaluated
    exact ⟨after, .call evaluated callable argumentsEvaluated failed⟩
  | target => exact ⟨after, .targetFails failed⟩
  | key targetEvaluated => exact ⟨after, .keyFails targetEvaluated failed⟩
  | block => exact ⟨after, .blockFails failed⟩
  | firstExpr => exact ⟨after, .firstExprFails failed⟩
  | restExprs firstEvaluated => exact ⟨after, .laterExprFails firstEvaluated failed⟩
  | firstMember => exact ⟨after, .memberFails failed⟩
  | restMembers firstEvaluated => exact ⟨after, .members firstEvaluated failed⟩
  | entryKey => exact ⟨after, .entryKeyFails failed⟩
  | entryValue keyEvaluated => exact ⟨after, .entryValueFails keyEvaluated failed⟩
  | restEntries keyEvaluated valueEvaluated =>
    obtain ⟨entry, same, vacant⟩ := passed
    cases List.append_cancel_left same
    exact ⟨after, .entries keyEvaluated valueEvaluated vacant failed⟩
  | @boundFunction _ _ _ _ value _ _ defined =>
    cases isFunction : value.isFunction with
    | true => exact ⟨after, .functionFails isFunction defined failed⟩
    | false =>
      simp only [Passes, isFunction] at passed
      cases passed
      exact ⟨after, .bindingFails isFunction failed⟩
  | @boundValue _ _ _ _ value _ =>
    cases isFunction : value.isFunction with
    | true =>
      simp only [Passes, isFunction, if_true] at passed
      exact ⟨after, .functionFails isFunction passed failed⟩
    | false => exact ⟨after, .bindingFails isFunction failed⟩
  | assignedValue => exact ⟨after, .assignmentFails failed⟩
  | expression => exact ⟨after, .expression failed⟩
  | firstStmt => exact ⟨after, .stmtFails failed⟩
  | restStmts firstEvaluated => exact ⟨after, .stmts firstEvaluated failed⟩
  | visit fits => exact ⟨after, .visit fits failed⟩
  | visitStmt fits => exact ⟨after, .visitStmt fits failed⟩
  | body found within bound =>
    obtain ⟨closure, isClosure, fitting⟩ := passed
    cases found.symm.trans isClosure
    exact ⟨_, .applyClosure found fitting within bound failed⟩

/-- An evaluation fails as soon as one that takes place within it does. -/
theorem Within.fails
    {outer inner : Call}
    (within : Within limit outer inner)
    (failed : Evaluates limit inner.site inner.task inner.machine (.error reason after)) :
    ∃ last, Evaluates limit outer.site outer.task outer.machine (.error reason last) := by
  induction within using Relation.ReflTransGen.head_induction_on with
  | refl => exact ⟨after, failed⟩
  | head performs _ hypothesis =>
    obtain ⟨last, later⟩ := hypothesis
    exact performs.fails later

theorem DividesInfinity.aborts {call : Call} (divides : DividesInfinity limit call) :
    ∃ last, Evaluates limit call.site call.task call.machine
      (.error (.abort .remainderDomain) last) := by
  cases divides with
  | @remainder site span left right machine between after leftValue rightValue leftEvaluated
      rightEvaluated infinite =>
      refine ⟨after, ?_⟩
      rw [← Operator.apply_infiniteDividend infinite span after]
      exact .binary leftEvaluated rightEvaluated

/-- An evaluation aborts exactly if an infinite dividend is divided within it. -/
theorem Evaluates.aborts_iff
    {shape : Shape} {task : Task shape}
    {ending : Ending shape.Answer} {abort : Abort}
    (derivation : Evaluates limit site task machine ending) :
    Ending.reason? ending = some (.abort abort) ↔
      abort = .remainderDomain ∧
        ∃ inner, Within limit ⟨_, site, task, machine⟩ inner ∧ DividesInfinity limit inner := by
  constructor
  · intro failed
    obtain ⟨inner, within, fails⟩ := derivation.failsWithin failed
    rcases fails.located with ⟨_, _, located, _⟩ | ⟨_, located⟩ | ⟨aborted, divides⟩
    · cases located
    · cases located
    · cases aborted
      exact ⟨rfl, inner, within, divides⟩
  · rintro ⟨rfl, inner, within, divides⟩
    obtain ⟨_, aborted⟩ := divides.aborts
    obtain ⟨_, failed⟩ := Within.fails within aborted
    cases derivation.eq_of_evaluates failed
    rfl

end

end Evaluation

end Offside
