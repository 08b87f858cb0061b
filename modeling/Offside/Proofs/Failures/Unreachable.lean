import Offside.Proofs.Bindings.Completion
import Offside.Proofs.Bindings.Permanence
import Offside.Proofs.Evaluation.Inheritance
import Offside.Proofs.Syntax.Regular

namespace Offside

/-!
# Internal failures follow an overflow of the host stack

Trees that are read from a source are regular, and so are the bodies of the functions that
their evaluation makes.  A function is bound before it is made, but nothing is looked up in
between.  So parameters can be bound, blocks have a value, and as long as the host stack did
not overflow, names that are looked up have values.  An overflow can strike between the
binding of a function and the making of it; then the name is left without a value, and a
later step of the session can come upon it.  No other internal failure is reachable.
-/

variable {machine : Machine} {statements : List Stmt}

/-- Regular syntax is made of regular syntax. -/
def Node.Regular : Node → Prop
  | .expr root => root.Regular
  | .entry root => root.Regular
  | .stmt root => root.Regular
  | .program root => Stmt.RegularAll root.statements

theorem Node.regular_inherited : Node.Inherited Node.Regular := by
  intro node regular part member
  cases node with
  | program root =>
    obtain ⟨stmt, within, rfl⟩ := List.mem_map.mp member
    exact Stmt.regularAll_iff.mp regular stmt within
  | entry root =>
    cases root with
    | pair span key value =>
      obtain ⟨keyRegular, valueRegular⟩ := regular
      rcases List.mem_pair.mp member with rfl | rfl
      · exact keyRegular
      · exact valueRegular
  | stmt root =>
    cases root <;>
      · cases List.mem_singleton.mp member
        exact regular
  | expr root =>
    cases root with
    | int | float | string | char | bool | identifier => cases member
    | array span elements =>
      obtain ⟨element, within, rfl⟩ := List.mem_map.mp member
      exact Expr.regularAll_iff.mp regular element within
    | set span elements =>
      obtain ⟨element, within, rfl⟩ := List.mem_map.mp member
      exact Expr.regularAll_iff.mp regular.2 element within
    | map span entries =>
      obtain ⟨entry, within, rfl⟩ := List.mem_map.mp member
      exact Entry.regularAll_iff.mp regular.2 entry within
    | binary span left operator right =>
      obtain ⟨leftRegular, _, rightRegular⟩ := regular
      rcases List.mem_pair.mp member with rfl | rfl
      · exact leftRegular
      · exact rightRegular
    | function span parameters body =>
      cases List.mem_singleton.mp member
      exact regular.2
    | call span callee arguments =>
      rcases List.mem_cons.mp member with rfl | later
      · exact regular.1
      · obtain ⟨argument, within, rfl⟩ := List.mem_map.mp later
        exact Expr.regularAll_iff.mp regular.2 argument within
    | index span target key =>
      obtain ⟨targetRegular, keyRegular⟩ := regular
      rcases List.mem_pair.mp member with rfl | rfl
      · exact targetRegular
      · exact keyRegular
    | block span statements =>
      obtain ⟨stmt, within, rfl⟩ := List.mem_map.mp member
      exact Stmt.regularAll_iff.mp regular.2 stmt within

namespace Evaluation

/-! ## Parameters and blocks -/

/-- Distinct names that are new to a frame can be bound there one after the other. -/
theorem bindParameters_succeeds
    {place : Nat} {outer : Scope} {bindings : List (Text × Value)}
    (distinct : (bindings.map Prod.fst).Nodup)
    (fresh : ∀ name ∈ bindings.map Prod.fst, machine.store.slot? place name = none) :
    ∃ bound, bindParameters (place :: outer) bindings machine = .ok () bound := by
  induction bindings generalizing machine with
  | nil => exact ⟨machine, rfl⟩
  | cons binding rest hypothesis =>
    obtain ⟨name, value⟩ := binding
    obtain ⟨notLater, restDistinct⟩ := List.nodup_cons.mp distinct
    have allowed : machine.store.bindingRefused? (place :: outer) name = none := by
      simp [Store.bindingRefused?, fresh name (List.mem_cons_self ..)]
    have defined : Action.define none (place :: outer) name ⟨some value, false⟩ machine =
        .ok () ⟨machine.store.bind (place :: outer) name ⟨some value, false⟩,
          machine.depth⟩ := by
      unfold Action.define
      rw [Action.store_bind_run, allowed]
      rfl
    unfold bindParameters
    rw [Action.bind_of_ok defined]
    refine hypothesis restDistinct fun other member => ?_
    have apart : other ≠ name := by
      rintro rfl
      exact notLater member
    have before := fresh other (List.mem_cons_of_mem _ member)
    have changed : (machine.store.bind (place :: outer) name ⟨some value, false⟩).frames =
        machine.store.frames.modify place (·.bind name ⟨some value, false⟩) := rfl
    rw [Store.slot?_of_modify changed, if_pos rfl]
    cases found : machine.store.frame? place with
    | none => rfl
    | some frame =>
      have absent : frame.slot? other = none := by
        simpa [Store.slot?, found] using before
      simp [absent, apart]

/-- Statements that end without a value are none. -/
theorem Evaluates.eq_nil_of_none
    {limit : Nat} {site : Site} {last : Option Value}
    {after : Machine}
    (derivation : Evaluates limit site (.stmts last statements) machine (.ok none after)) :
    last = none ∧ statements = [] := by
  induction statements generalizing last machine with
  | nil =>
    cases derivation
    exact ⟨rfl, rfl⟩
  | cons first rest hypothesis =>
    cases derivation with
    | stmts _ later =>
      obtain ⟨impossible, _⟩ := hypothesis later
      cases impossible

/-- The parameters of a function with regular syntax are distinct, so they can be bound in
the frame that a call opens. -/
theorem exists_bound_of_regular
    {index : Nat} {closure : Closure} {arguments : List Value}
    (carries : machine.store.Carries Node.Regular)
    (found : machine.store.closures[index]? = some closure)
    (fitting : arguments.length = closure.parameters.length)
    (name : Text) :
    ∃ bound, bindParameters (machine.store.frames.size :: closure.scope)
      (closure.parameters.zip arguments)
      ⟨(machine.store.addFrame name).2, machine.depth⟩ = .ok () bound := by
  obtain ⟨span, distinct, _⟩ := carries index closure found
  have names : (closure.parameters.zip arguments).map Prod.fst = closure.parameters :=
    List.map_fst_zip (Nat.le_of_eq fitting.symm)
  refine bindParameters_succeeds (names.symm ▸ distinct) fun parameter _ => ?_
  have opened : (machine.store.addFrame name).2.frames =
      machine.store.frames.push ⟨name, []⟩ := rfl
  rw [Store.slot?_of_push opened]
  simp [Store.slot?, Store.frame?]

/-! ## Evaluations within a regular one -/

/-- Whether an evaluation only makes a function. -/
def Call.makesFunction : Call → Bool
  | ⟨_, _, .visit root, _⟩ | ⟨_, _, .expr root, _⟩ => root.isFunction
  | _ => false

section

variable {limit : Nat} {outer inner : Call} {reason : Failure}

/-- The frames change as usual up to an evaluation that is performed, unless that one makes
a function whose name is bound before. -/
theorem Performs.evolves (performs : Performs limit outer inner) :
    inner.makesFunction = true ∨
      outer.machine.store.Evolves FrameChange.Complete inner.machine.store := by
  obtain ⟨demand, passed⟩ := performs
  rcases demand.evolves with evolves | bindsFirst
  · exact .inr evolves
  · obtain @⟨_, _, _, _, value, _, _, _⟩ := bindsFirst
    cases isFunction : value.isFunction with
    | true => exact .inl isFunction
    | false =>
      simp only [Passes, isFunction] at passed
      cases passed
      exact .inr (.refl _ _)

/-- What the making of a function demands makes the function. -/
theorem Demands.makesFunction
    (demand : Demands limit outer inner)
    (makes : outer.makesFunction = true) :
    inner.makesFunction = true := by
  cases demand with
  | visit => exact makes
  | _ => cases makes

/-- Every binding has a value wherever an evaluation takes place within another, unless it
makes a function. -/
theorem Within.finished
    (within : Within limit outer inner)
    (finished : outer.machine.store.Finished) :
    inner.makesFunction = true ∨ inner.machine.store.Finished := by
  induction within with
  | refl => exact .inr finished
  | tail _ performs hypothesis =>
    rcases hypothesis with function | finishedBefore
    · exact .inl (performs.demanded.makesFunction function)
    · exact performs.evolves.imp_right fun evolves => finishedBefore.evolves evolves fun _ => id

/-- A regular evaluation does not itself fail for an internal cause, unless it looks up a name
and some binding has no value. -/
theorem Fails.blamable
    {call : Call}
    (fails : Fails limit call reason)
    (carries : call.Carries Node.Regular) :
    reason.isInternal = false ∨
      reason.isUnfinished = true ∧ call.makesFunction = false ∧
        ¬ call.machine.store.Finished := by
  obtain ⟨task, store⟩ := carries
  cases fails with
  | @identifier _ _ _ machine _ unknown =>
    by_cases finished : machine.store.Finished
    · exact .inl ((Failure.isInternal_located _ _).trans
        (Expected.lookup finished _ _ _ unknown))
    · rcases Expected.unfinished_of_lookup unknown with blamable | rfl
      · exact .inl ((Failure.isInternal_located _ _).trans blamable)
      · exact .inr ⟨rfl, rfl, finished⟩
  | overflow | stmtOverflow => exact .inl rfl
  | operator _ _ applied => exact .inl (Action.Blamable.operator task.2.1 _ _ _ _ _ _ applied)
  | callee | entry | notCallable | arity | depth => exact .inl rfl
  | index _ _ missing =>
    exact .inl ((Failure.isInternal_located _ _).trans (Expected.element _ _ _ _ _ missing))
  | block evaluated => exact (task.1 evaluated.eq_nil_of_none.2).elim
  | functionBinding _ refused | binding _ _ refused =>
    exact .inl ((Failure.isInternal_located _ _).trans (Expected.bindingRefused refused))
  | assignment _ refused =>
    exact .inl ((Failure.isInternal_located _ _).trans (Expected.assignedFrame _ _ _ _ refused))
  | builtin failed =>
    exact .inl ((Failure.isInternal_located _ _).trans (Expected.builtin _ _ _ _ failed))
  | parameters found fitting refused =>
    obtain ⟨bound, succeeds⟩ := exists_bound_of_regular store found fitting _
    cases refused.symm.trans succeeds

/-- An evaluation within a regular one fails for an internal cause only if some binding had no
value from the beginning. -/
theorem Within.blamable
    {ending : Ending inner.shape.Answer}
    (within : Within limit outer inner)
    (carries : outer.Carries Node.Regular)
    (derivation : Evaluates limit inner.site inner.task inner.machine ending)
    (failed : Ending.reason? ending = some reason) :
    reason.isInternal = false ∨
      reason.isUnfinished = true ∧ ¬ outer.machine.store.Finished := by
  obtain ⟨failing, inside, fails⟩ := derivation.failsWithin failed
  have place : Within limit outer failing := within.trans inside
  refine (fails.blamable (Within.carries place Node.regular_inherited carries)).imp_right ?_
  rintro ⟨unfinished, noFunction, notFinished⟩
  refine ⟨unfinished, fun finished => ?_⟩
  rcases Within.finished place finished with makes | stillFinished
  · cases noFunction.symm.trans makes
  · exact notFinished stillFinished

end

/-- The parameters of a function that is called can be bound. -/
def Call.Binds : Call → Prop
  | ⟨_, _, .apply _ name (.closure index) arguments, machine⟩ =>
    ∀ closure, machine.store.closures[index]? = some closure →
      arguments.length = closure.parameters.length →
      ∃ bound, bindParameters (machine.store.frames.size :: closure.scope)
        (closure.parameters.zip arguments)
        ⟨(machine.store.addFrame name).2, machine.depth⟩ = .ok () bound
  | _ => True

/-- The statements of a block give a value, unless one of them fails. -/
def Call.Gives (limit : Nat) : Call → Prop
  | ⟨_, site, .expr (.block _ statements), machine⟩ =>
    ∃ ending, Evaluates limit ((site.inside 2).enter machine.store.frames.size)
        (.stmts none statements) ⟨(machine.store.addFrame "block").2, machine.depth⟩ ending ∧
      ((∃ value after, ending = .ok (some value) after) ∨
        ∃ reason after, ending = .error reason after)
  | _ => True

section

variable {limit : Nat} {outer inner : Call}

theorem Within.binds (within : Within limit outer inner) (carries : outer.Carries Node.Regular) :
    inner.Binds := by
  have store := (Within.carries within Node.regular_inherited carries).store
  unfold Call.Binds
  split
  · intro closure found fitting
    exact exists_bound_of_regular store found fitting _
  · trivial

theorem Within.gives (within : Within limit outer inner) (carries : outer.Carries Node.Regular) :
    inner.Gives limit := by
  have regular := (Within.carries within Node.regular_inherited carries).task
  unfold Call.Gives
  split
  · rename_i site span statements machine
    obtain ⟨ending, derivation⟩ := Call.finishes limit
      ⟨_, (site.inside 2).enter machine.store.frames.size, .stmts none statements,
        ⟨(machine.store.addFrame "block").2, machine.depth⟩⟩
    refine ⟨ending, derivation, ?_⟩
    cases ending with
    | error reason after => exact .inr ⟨reason, after, rfl⟩
    | ok last after =>
      cases last with
      | some value => exact .inl ⟨value, after, rfl⟩
      | none => exact (regular.1 derivation.eq_nil_of_none.2).elim
  · trivial

end

end Evaluation

/-! ## Sessions -/

namespace Session

variable {step : Step}

theorem Step.regular_of_read (reads : step.read = .ok statements) :
    Stmt.RegularAll statements ∧ (step.single = true → statements ≠ []) := by
  unfold Step.read at reads
  split at reads
  · obtain ⟨regular, some⟩ := Stmt.regular_of_ofSource reads
    exact ⟨regular, fun _ => some⟩
  · rename_i whole
    cases result : Program.ofSource step.settings.file step.source with
    | error failure =>
      rw [result] at reads
      cases reads
    | ok program =>
      rw [result] at reads
      cases reads
      exact ⟨Program.regular_of_ofSource result, fun single => (whole single).elim⟩

theorem Step.isInternal_of_read {failure : Failure} (failed : step.read = .error failure) :
    failure.isInternal = false := by
  refine Failure.isInternal_of_isRuntime ?_
  unfold Step.read at failed
  split at failed
  · exact Stmt.isRuntime_of_ofSource failed
  · cases result : Program.ofSource step.settings.file step.source with
    | error other =>
      rw [result] at failed
      cases failed
      exact Program.isRuntime_of_ofSource result
    | ok program =>
      rw [result] at failed
      cases failed

/-- How a step ends: the source is refused, or its statements are, or they are evaluated. -/
inductive Step.Ends (step : Step) (machine : Machine) :
    Except Failure (Option Value) × Machine → Prop where
  | unread
      {failure : Failure} :
      step.read = .error failure →
      Step.Ends step machine (.error (failure.attach step.source.lines), machine)
  | refused
      {statements : List Stmt} :
      step.read = .ok statements →
      Evaluation.mostStack < 1000 + 32 * step.settings.maxCallDepth →
      Step.Ends step machine (.error (.abort .stackReservation), machine)
  | fails
      {statements : List Stmt} {reason : Failure} {after : Machine} :
      step.read = .ok statements →
      Evaluation.Evaluates step.settings.maxCallDepth
        (Evaluation.startSite step.settings.maxCallDepth Store.globalScope)
        (.stmts none statements) machine (.error reason after) →
      Step.Ends step machine (.error (reason.attach step.source.lines), after)
  | succeeds
      {statements : List Stmt} {last : Option Value} {after : Machine} :
      step.read = .ok statements →
      1000 + 32 * step.settings.maxCallDepth ≤ Evaluation.mostStack →
      Evaluation.Evaluates step.settings.maxCallDepth
        (Evaluation.startSite step.settings.maxCallDepth Store.globalScope)
        (.stmts none statements) machine (.ok last after) →
      Step.Ends step machine (.ok last, after)

theorem Step.ends_perform (step : Step) (machine : Machine) :
    step.Ends machine (step.perform machine) := by
  have performed : step.perform machine =
      withSource step.source (executeRead step.settings step.read machine) := by
    unfold Step.perform Step.read
    split <;> rfl
  rw [performed]
  cases reads : step.read with
  | error failure => exact .unread reads
  | ok statements =>
    have executes := Evaluation.executes_execute step.settings.maxCallDepth Store.globalScope
      statements machine
    show step.Ends machine (withSource step.source (outcome _ machine))
    unfold outcome
    generalize Evaluation.execute _ _ _ _ = ending at executes ⊢
    cases executes with
    | refused full => exact .refused reads full
    | evaluated starts derivation =>
      cases ending with
      | ok last after => exact .succeeds reads starts derivation
      | error reason after => exact .fails reads derivation

/-- What a step evaluates is regular, and so are the functions that it can call. -/
theorem Step.carries_of_read
    (carries : machine.store.Carries Node.Regular)
    (reads : step.read = .ok statements) :
    Evaluation.Call.Carries Node.Regular
      ⟨_, Evaluation.startSite step.settings.maxCallDepth Store.globalScope,
        .stmts none statements, machine⟩ :=
  ⟨Stmt.regularAll_iff.mp (Step.regular_of_read reads).1, carries⟩

/-- A step leaves functions with regular syntax. -/
theorem Step.carries (step : Step) (carries : machine.store.Carries Node.Regular) :
    (step.perform machine).2.store.Carries Node.Regular := by
  have ends := step.ends_perform machine
  generalize step.perform machine = result at ends ⊢
  cases ends with
  | unread | refused => exact carries
  | fails reads derivation | succeeds reads _ derivation =>
    exact derivation.carries Node.regular_inherited (Step.carries_of_read carries reads)

/-- Whether a step of a session ends because the host stack overflows. -/
def Step.overflows (step : Step) (machine : Machine) : Prop :=
  (step.perform machine).1 = .error (Evaluation.hostOverflow step.settings.maxCallDepth)

/-- A step leaves bindings with values, unless the host stack overflows. -/
theorem Step.finished (step : Step) (finished : machine.store.Finished) :
    step.overflows machine ∨ (step.perform machine).2.store.Finished := by
  have ends := step.ends_perform machine
  unfold Step.overflows
  generalize step.perform machine = result at ends ⊢
  cases ends with
  | unread | refused => exact .inr finished
  | succeeds _ _ derivation =>
    exact .inr (finished.evolves derivation.evolves_complete fun _ => id)
  | @fails _ reason after _ derivation =>
    by_cases overflow : reason = Evaluation.hostOverflow step.settings.maxCallDepth
    · subst overflow
      exact .inl rfl
    · refine .inr (finished.evolves derivation.evolves fun change caused => ?_)
      unfold FrameChange.Complete
      split
      · cases derivation.overflows_of_struck caused
        exact overflow rfl
      · trivial

/-- A step fails for an internal cause only from a store with a binding that has no value. -/
theorem Step.blamable
    {failure : Failure}
    (carries : machine.store.Carries Node.Regular)
    (failed : (step.perform machine).1 = .error failure) :
    failure.isInternal = false ∨ failure.isUnfinished = true ∧ ¬ machine.store.Finished := by
  have ends := step.ends_perform machine
  generalize step.perform machine = result at ends failed
  cases ends with
  | unread refused =>
    cases failed
    rw [Failure.isInternal_attach]
    exact .inl (Step.isInternal_of_read refused)
  | refused =>
    cases failed
    exact .inl rfl
  | fails reads derivation =>
    cases failed
    rw [Failure.isInternal_attach, Failure.isUnfinished_attach]
    exact Evaluation.Within.blamable .refl (Step.carries_of_read carries reads) derivation rfl
  | succeeds => cases failed

/-- A step succeeds without a value exactly if it runs a program without statements. -/
theorem Step.perform_eq_none_iff (step : Step) (machine : Machine) :
    (step.perform machine).1 = .ok none ↔
      step.single = false ∧ step.read = .ok [] ∧
        1000 + 32 * step.settings.maxCallDepth ≤ Evaluation.mostStack := by
  have ends := step.ends_perform machine
  generalize step.perform machine = result at ends
  constructor
  · intro noValue
    cases ends with
    | unread | refused | fails => cases noValue
    | succeeds reads starts derivation =>
      cases noValue
      obtain ⟨_, rfl⟩ := derivation.eq_nil_of_none
      refine ⟨?_, reads, starts⟩
      rw [← Bool.not_eq_true]
      intro single
      exact (Step.regular_of_read reads).2 single rfl
  · rintro ⟨_, reads, starts⟩
    cases ends with
    | unread refused => cases reads.symm.trans refused
    | refused _ full => exact (Nat.not_le.mpr full starts).elim
    | fails known derivation =>
      cases reads.symm.trans known
      cases derivation
    | succeeds known _ derivation =>
      cases reads.symm.trans known
      cases derivation
      rfl

/-- A session reaches only functions with regular syntax. -/
theorem after_regular (steps : List Step) : (after steps).store.Carries Node.Regular := by
  induction steps using List.reverseRecOn with
  | nil => nofun
  | append_singleton steps step hypothesis =>
    rw [after_concat]
    exact step.carries hypothesis

/-- Whether one of the steps of a session ended because the host stack overflowed. -/
def Overflowed (steps : List Step) : Prop :=
  ∃ earlier step later, steps = earlier ++ step :: later ∧ step.overflows (after earlier)

/-- A session reaches only bindings with values, unless the host stack overflowed. -/
theorem after_finished (steps : List Step) :
    Overflowed steps ∨ (after steps).store.Finished := by
  induction steps using List.reverseRecOn with
  | nil => exact .inr finished_initial
  | append_singleton steps step hypothesis =>
    rcases hypothesis with ⟨earlier, struck, later, rfl, overflows⟩ | finished
    · exact .inl ⟨earlier, struck, later ++ [step], by simp, overflows⟩
    · rw [after_concat]
      exact (step.finished finished).imp_left fun overflows => ⟨steps, step, [], rfl, overflows⟩

end Session

/-- Internal failures follow an overflow of the host stack.  Whatever steps a session made, a
further step fails for an internal cause only if a name is used before its definition is
completed, and only after a step that ended because the host stack overflowed.  It succeeds
without a value only if it runs a program without statements.  Of the evaluations that take
place within a step, none fails for an internal cause but in this way, each call of a function
can bind its parameters, and each block has a value unless one of its statements fails. -/
theorem internal_failures_follow_overflows (steps : List Session.Step) (step : Session.Step) :
    let machine := Session.after steps
    let limit := step.settings.maxCallDepth
    (∀ failure, (step.perform machine).1 = .error failure →
        failure.isInternal = false ∨ failure.isUnfinished = true ∧ Session.Overflowed steps) ∧
      ((step.perform machine).1 = .ok none ↔
        step.single = false ∧ step.read = .ok [] ∧ 1000 + 32 * limit ≤ Evaluation.mostStack) ∧
      ∀ statements, step.read = .ok statements →
        ∀ inner, Evaluation.Within limit
            ⟨_, Evaluation.startSite limit Store.globalScope, .stmts none statements, machine⟩
            inner →
          (∀ reason after,
            Evaluation.Evaluates limit inner.site inner.task inner.machine
              (.error reason after) →
            reason.isInternal = false ∨
              reason.isUnfinished = true ∧ Session.Overflowed steps) ∧
          inner.Binds ∧ inner.Gives limit := by
  intro machine limit
  have carries := Session.after_regular steps
  have struck (unfinished : ¬ machine.store.Finished) : Session.Overflowed steps :=
    (Session.after_finished steps).resolve_right unfinished
  refine ⟨fun failure failed => ?_, Session.Step.perform_eq_none_iff step machine, ?_⟩
  · exact (Session.Step.blamable carries failed).imp_right fun ⟨unfinished, bound⟩ =>
      ⟨unfinished, struck bound⟩
  intro statements reads inner within
  have regular := Session.Step.carries_of_read carries reads
  refine ⟨fun reason after derivation => ?_, Evaluation.Within.binds within regular,
    Evaluation.Within.gives within regular⟩
  exact (Evaluation.Within.blamable within regular derivation rfl).imp_right
    fun ⟨unfinished, bound⟩ => ⟨unfinished, struck bound⟩

/-- An internal failure is reachable: after a step in which the host stack overflows, a call
comes upon a name that was left without a value. -/
theorem internal_failure_after_overflow :
    ∃ failure, (Session.struckUse.perform (Session.after [Session.struckBinding])).1 =
      .error failure ∧ failure.isInternal = true := by
  obtain ⟨_, _, internal⟩ := Session.struckBinding_ends
  cases performed : (Session.struckUse.perform (Session.after [Session.struckBinding])).1 with
  | ok last =>
    rw [performed] at internal
    cases internal
  | error failure =>
    rw [performed] at internal
    exact ⟨failure, rfl, internal⟩

end Offside
