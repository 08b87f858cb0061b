import Offside.Proofs.Values.Held

namespace Offside

/-!
# Properties that last

An evaluation keeps a lasting property: if it starts with values that have it, and what is
made within it has it, then it ends with such values, and every evaluation that is a part of
it starts with such values.  So the property holds throughout a session, also in the middle of
a move and after a move that fails.
-/

namespace Evaluation

section

variable {good : Store → Value → Prop} (lasting : Lasting good) {limit : Nat} {machine : Machine}

include lasting

theorem bindParameters_upholds
    {bindings : List (Text × Value)}
    (scope : Scope)
    (upholds : machine.store.Upholds good)
    (each : ∀ binding ∈ bindings, good machine.store binding.2) :
    (Ending.machine (bindParameters scope bindings machine)).store.Upholds good := by
  let keeps (store : Store) : Prop := store.Upholds good ∧ machine.store.Grows store
  have bound : keeps (Ending.machine (bindParameters scope bindings machine)).store := by
    refine bindParameters_keeps ⟨upholds, .refl _⟩ ?_
    rintro name value store member ⟨upholds, grows⟩ -
    refine ⟨lasting.bind upholds scope name ?_, grows.trans (.bind ..)⟩
    rintro _ ⟨⟩
    exact lasting.grows (each _ member) grows
  exact bound.1

/-- The call of a function binds its arguments in a new frame. -/
theorem entered_upholds
    {closure : Closure} {arguments : List Value} {name : Text}
    {ending : Ending Unit}
    (upholds : machine.store.Upholds good)
    (each : ∀ argument ∈ arguments, good machine.store argument)
    (ran : bindParameters (machine.store.frames.size :: closure.scope)
      (closure.parameters.zip arguments)
      ⟨(machine.store.addFrame name).2, machine.depth⟩ = ending) :
    (Ending.machine ending).store.Upholds good := by
  have framed : Store.Upholds good
      (Machine.store ⟨(machine.store.addFrame name).2, machine.depth⟩) :=
    lasting.addFrame upholds name
  rw [← ran]
  refine bindParameters_upholds lasting _ framed fun binding member => ?_
  exact lasting.grows (each _ (List.of_mem_zip member).2) (.addFrame ..)

theorem callBuiltin_upholds
    {span : Span} {name : Text} {function : Builtin} {arguments : List Value}
    (upholds : machine.store.Upholds good)
    (each : ∀ argument ∈ arguments, good machine.store argument)
    (sized : ∀ value size, function = .len → arguments = [value] →
      Builtin.length machine.store value = .ok size → good machine.store (.int size)) :
    Ending.Upholds good .value (callBuiltin span name function arguments machine) := by
  unfold callBuiltin
  split
  · exact upholds
  rw [Action.store_bind_run]
  cases applied : Builtin.apply machine.store function arguments with
  | error cause => exact upholds
  | ok answer =>
    obtain ⟨result, after⟩ := answer
    exact lasting.apply upholds each sized applied

/-- An evaluation of values with a lasting property gives such values, if those that are made
within it have the property. -/
theorem Evaluates.upholds
    {shape : Shape} {site : Site} {task : Task shape}
    {ending : Ending shape.Answer}
    (derivation : Evaluates limit site task machine ending)
    (makes : ∀ inner, Within limit ⟨_, site, task, machine⟩ inner → inner.Makes good limit)
    (upholds : machine.store.Upholds good)
    (known : task.Holds good machine.store) :
    Ending.Upholds good shape ending := by
  have below {outer inner : Call}
      (makes : ∀ call, Within limit outer call → call.Makes good limit)
      (demanded : Demands limit outer inner)
      (passed : Passes limit outer inner) :
      ∀ call, Within limit inner call → call.Makes good limit :=
    fun call within => makes call (.head ⟨demanded, passed⟩ within)
  induction derivation with
  | int => exact ⟨makes _ .refl, upholds⟩
  | string | bool | char => exact ⟨lasting.plain _ _ rfl, upholds⟩
  | noExprs => exact ⟨List.forall_mem_nil _, upholds⟩
  | float => exact lasting.addFloat upholds _
  | function => exact ⟨lasting.plain _ _ rfl, lasting.addClosure upholds _⟩
  | noMembers | noEntries | noStmts => exact ⟨known, upholds⟩
  | overflow | stmtOverflow | applyOther | applyMissing | applyArity | applyRefused =>
    exact upholds
  | identifier => exact .check upholds fun value => Store.Holds.lookup upholds
  | array _ elements =>
    obtain ⟨each, after⟩ := elements (below makes .arrayElements trivial) upholds trivial
    exact ⟨lasting.array _ _, lasting.addArray after each⟩
  | arrayFails _ elements => exact elements (below makes .arrayElements trivial) upholds trivial
  | set evaluated elements =>
    obtain ⟨each, after⟩ := elements (below makes .setElements trivial) upholds
      (List.forall_mem_nil _)
    exact ⟨makes _ .refl _ _ evaluated, lasting.addSet after each⟩
  | setFails _ elements =>
    exact elements (below makes .setElements trivial) upholds (List.forall_mem_nil _)
  | map evaluated pairs =>
    obtain ⟨each, after⟩ := pairs (below makes .mapEntries trivial) upholds
      (List.forall_mem_nil _)
    exact ⟨makes _ .refl _ _ evaluated, lasting.addMap after each⟩
  | mapFails _ pairs =>
    exact pairs (below makes .mapEntries trivial) upholds (List.forall_mem_nil _)
  | binary leftEvaluated _ left right =>
    obtain ⟨_, between⟩ := left (below makes .left trivial) upholds trivial
    obtain ⟨_, after⟩ := right (below makes (.right leftEvaluated) trivial) between trivial
    exact Operator.apply_preserves lasting _ _ _ _ _ after
  | leftFails _ left => exact left (below makes .left trivial) upholds trivial
  | rightFails leftEvaluated _ left right =>
    obtain ⟨_, between⟩ := left (below makes .left trivial) upholds trivial
    exact right (below makes (.right leftEvaluated) trivial) between trivial
  | calleeFails _ callee => exact callee (below makes .callee trivial) upholds trivial
  | notCallable _ _ callee => exact (callee (below makes .callee trivial) upholds trivial).2
  | argumentsFail calleeEvaluated callable _ callee arguments =>
    obtain ⟨_, between⟩ := callee (below makes .callee trivial) upholds trivial
    exact arguments (below makes (.arguments calleeEvaluated) ⟨_, _, calleeEvaluated, callable⟩)
      between trivial
  | call calleeEvaluated callable argumentsEvaluated _ callee arguments applied =>
    obtain ⟨_, between⟩ := callee (below makes .callee trivial) upholds trivial
    obtain ⟨each, after⟩ := arguments
      (below makes (.arguments calleeEvaluated) ⟨_, _, calleeEvaluated, callable⟩)
      between trivial
    exact applied (below makes (.apply calleeEvaluated argumentsEvaluated)
      ⟨_, _, calleeEvaluated, callable⟩) after each
  | targetFails _ target => exact target (below makes .target trivial) upholds trivial
  | keyFails targetEvaluated _ target key =>
    obtain ⟨_, between⟩ := target (below makes .target trivial) upholds trivial
    exact key (below makes (.key targetEvaluated) trivial) between trivial
  | index targetEvaluated _ target key =>
    obtain ⟨_, between⟩ := target (below makes .target trivial) upholds trivial
    obtain ⟨_, after⟩ := key (below makes (.key targetEvaluated) trivial) between trivial
    exact .check after fun value => lasting.element after
  | blockFails _ statements =>
    exact statements (below makes .block trivial) (lasting.addFrame upholds _) holds_none
  | block _ statements =>
    obtain ⟨last, after⟩ := statements (below makes .block trivial)
      (lasting.addFrame upholds _) holds_none
    exact ⟨last _ rfl, after⟩
  | emptyBlock _ statements =>
    exact (statements (below makes .block trivial) (lasting.addFrame upholds _) holds_none).2
  | exprs firstEvaluated restEvaluated first rest =>
    obtain ⟨value, between⟩ := first (below makes .firstExpr trivial) upholds trivial
    obtain ⟨values, after⟩ := rest (below makes (.restExprs firstEvaluated) trivial) between
      trivial
    have valueLater := lasting.grows value restEvaluated.grows
    exact ⟨List.forall_mem_cons.mpr ⟨valueLater, values⟩, after⟩
  | laterExprFails firstEvaluated _ first rest =>
    obtain ⟨_, between⟩ := first (below makes .firstExpr trivial) upholds trivial
    exact rest (below makes (.restExprs firstEvaluated) trivial) between trivial
  | firstExprFails _ first => exact first (below makes .firstExpr trivial) upholds trivial
  | memberFails _ first => exact first (below makes .firstMember trivial) upholds trivial
  | members firstEvaluated _ first rest =>
    obtain ⟨value, between⟩ := first (below makes .firstMember trivial) upholds trivial
    refine rest (below makes (.restMembers firstEvaluated) trivial) between
      (Store.holds_adjoin (fun entry member => ?_) value)
    exact lasting.setEntry (known entry member) firstEvaluated.grows
  | entryKeyFails _ key => exact key (below makes .entryKey trivial) upholds trivial
  | entryValueFails keyEvaluated _ key value =>
    obtain ⟨_, between⟩ := key (below makes .entryKey trivial) upholds trivial
    exact value (below makes (.entryValue keyEvaluated) trivial) between trivial
  | duplicateKey keyEvaluated _ _ key value =>
    obtain ⟨_, between⟩ := key (below makes .entryKey trivial) upholds trivial
    exact (value (below makes (.entryValue keyEvaluated) trivial) between trivial).2
  | entries keyEvaluated valueEvaluated vacant _ key value rest =>
    obtain ⟨named, between⟩ := key (below makes .entryKey trivial) upholds trivial
    obtain ⟨valued, after⟩ := value (below makes (.entryValue keyEvaluated) trivial) between
      trivial
    have namedLater := lasting.grows named valueEvaluated.grows
    refine rest (below makes (.restEntries keyEvaluated valueEvaluated) ⟨_, rfl, vacant⟩) after
      (forall_mem_concat (fun entry member => ?_) ⟨namedLater, valued⟩)
    exact lasting.mapEntry (known entry member) (keyEvaluated.grows.trans valueEvaluated.grows)
  | functionRefused _ refused =>
    obtain ⟨rfl, _⟩ := Action.of_define_error refused
    exact upholds
  | functionFails isFunction defined evaluated _ =>
    obtain ⟨_, _, _, rfl⟩ := exists_of_isFunction isFunction
    obtain ⟨_, rfl⟩ := Action.of_define_ok defined
    obtain ⟨_, _, rfl⟩ := visit_function_fails evaluated
    exact lasting.bind upholds _ _ holds_none
  | @functionBinding site _ mutable name _ machine _ _ _ isFunction defined evaluated _ =>
    obtain ⟨_, _, _, rfl⟩ := exists_of_isFunction isFunction
    obtain ⟨_, rfl⟩ := Action.of_define_ok defined
    obtain ⟨_, rfl, rfl⟩ := visits_function evaluated
    have bound : (machine.store.bind site name ⟨none, mutable⟩).Upholds good :=
      lasting.bind upholds site name holds_none
    have made := lasting.addClosure bound
    exact ⟨lasting.plain _ _ rfl, lasting.fill (made _) site name (lasting.plain _ _ rfl)⟩
  | bindingFails notFunction _ value =>
    exact value (below makes .boundValue (by simp [Passes, notFunction])) upholds trivial
  | binding notFunction _ value =>
    obtain ⟨valued, later⟩ := value
      (below makes .boundValue (by simp [Passes, notFunction])) upholds trivial
    refine Action.define_ends (motive := Ending.Upholds good .value) (fun _ => ?_) fun _ => later
    refine ⟨lasting.grows valued (.bind ..), lasting.bind later _ _ ?_⟩
    rintro _ ⟨⟩
    exact valued
  | assignmentFails _ value => exact value (below makes .assignedValue trivial) upholds trivial
  | assignment _ value =>
    obtain ⟨valued, later⟩ := value (below makes .assignedValue trivial) upholds trivial
    refine Action.assign_ends (motive := Ending.Upholds good .value) (fun place _ => ?_)
      fun _ => later
    exact ⟨lasting.grows valued (.modifyFrame ..), lasting.assign later place _ valued⟩
  | expression _ value => exact value (below makes .expression trivial) upholds trivial
  | stmtFails _ first => exact first (below makes .firstStmt trivial) upholds trivial
  | stmts firstEvaluated _ first rest =>
    obtain ⟨value, between⟩ := first (below makes .firstStmt trivial) upholds trivial
    refine rest (below makes (.restStmts firstEvaluated) trivial) between ?_
    rintro _ ⟨⟩
    exact value
  | visit fits _ root => exact root (below makes (.visit fits) trivial) upholds trivial
  | visitStmt fits _ root => exact root (below makes (.visitStmt fits) trivial) upholds trivial
  | applyBuiltin =>
    refine callBuiltin_upholds lasting upholds known fun value size isLen single => ?_
    subst isLen single
    exact makes _ .refl size
  | parametersFail _ _ _ bound => exact entered_upholds lasting upholds known bound
  | @applyClosure _ _ _ _ _ _ _ _ ending found fitting within bound _ body =>
    have entered := entered_upholds lasting upholds known bound
    have after := body (below makes (.body found within bound) ⟨_, found, fitting⟩) entered
      trivial
    cases ending <;> exact after

/-- An evaluation that is a part of another starts with values that have a lasting property. -/
theorem Performs.upholds
    {outer inner : Call}
    (performs : Performs limit outer inner)
    (makes : ∀ call, Within limit outer call → call.Makes good limit)
    (starts : outer.Upholds good) :
    inner.Upholds good := by
  obtain ⟨demand, passed⟩ := performs
  obtain ⟨known, store⟩ := starts
  -- What is evaluated before `inner` ends with values that have the property.
  have ends (sibling : Call) (ending : Ending sibling.shape.Answer)
      (demanded : Demands limit outer sibling) (passed : Passes limit outer sibling)
      (starts : sibling.Upholds good)
      (derivation : Evaluates limit sibling.site sibling.task sibling.machine ending) :
      Ending.Upholds good sibling.shape ending :=
    derivation.upholds lasting (fun call within => makes call (.head ⟨demanded, passed⟩ within))
      starts.store starts.task
  cases demand with
  | arrayElements | left | callee | target | firstExpr | firstMember | entryKey | boundValue
  | assignedValue | expression | firstStmt | visit | visitStmt => exact ⟨trivial, store⟩
  | setElements | mapEntries => exact ⟨List.forall_mem_nil _, store⟩
  | block => exact ⟨holds_none, lasting.addFrame store _⟩
  | right evaluated => exact ⟨trivial, (ends _ _ .left trivial ⟨trivial, store⟩ evaluated).2⟩
  | key evaluated => exact ⟨trivial, (ends _ _ .target trivial ⟨trivial, store⟩ evaluated).2⟩
  | arguments evaluated =>
    exact ⟨trivial, (ends _ _ .callee trivial ⟨trivial, store⟩ evaluated).2⟩
  | apply calleeEvaluated argumentsEvaluated =>
    have between := (ends _ _ .callee trivial ⟨trivial, store⟩ calleeEvaluated).2
    have after := ends _ _ (.arguments calleeEvaluated) passed ⟨trivial, between⟩
      argumentsEvaluated
    exact ⟨after.1, after.2⟩
  | restExprs evaluated =>
    exact ⟨trivial, (ends _ _ .firstExpr trivial ⟨trivial, store⟩ evaluated).2⟩
  | restMembers evaluated =>
    have between := ends _ _ .firstMember trivial ⟨trivial, store⟩ evaluated
    refine ⟨Store.holds_adjoin (fun entry member => ?_) between.1, between.2⟩
    exact lasting.setEntry (known entry member) evaluated.grows
  | entryValue evaluated =>
    exact ⟨trivial, (ends _ _ .entryKey trivial ⟨trivial, store⟩ evaluated).2⟩
  | restEntries keyEvaluated valueEvaluated =>
    have named := ends _ _ .entryKey trivial ⟨trivial, store⟩ keyEvaluated
    have valued := ends _ _ (.entryValue keyEvaluated) trivial ⟨trivial, named.2⟩
      valueEvaluated
    have namedLater := lasting.grows named.1 valueEvaluated.grows
    refine ⟨forall_mem_concat (fun entry member => ?_) ⟨namedLater, valued.1⟩, valued.2⟩
    exact lasting.mapEntry (known entry member) (keyEvaluated.grows.trans valueEvaluated.grows)
  | boundFunction defined =>
    obtain ⟨_, rfl⟩ := Action.of_define_ok defined
    exact ⟨trivial, lasting.bind store _ _ holds_none⟩
  | restStmts evaluated =>
    have between := ends _ _ .firstStmt trivial ⟨trivial, store⟩ evaluated
    refine ⟨?_, between.2⟩
    rintro _ ⟨⟩
    exact between.1
  | body _ _ ran => exact ⟨trivial, entered_upholds lasting store known ran⟩

/-- Every evaluation that takes place within another starts with values that have a lasting
property. -/
theorem Within.upholds
    {outer inner : Call}
    (within : Within limit outer inner)
    (makes : ∀ call, Within limit outer call → call.Makes good limit)
    (starts : outer.Upholds good) :
    inner.Upholds good := by
  induction within with
  | refl => exact starts
  | tail before performs hypothesis =>
    exact performs.upholds lasting (fun call within => makes call (before.trans within))
      hypothesis

/-- What an evaluation itself does to a store leaves values with a lasting property. -/
theorem Effect.upholds
    {call : Call} {before after : Store}
    (effect : Effect limit call before after)
    (makes : ∀ inner, Within limit call inner → inner.Makes good limit)
    (starts : call.Upholds good)
    (upholds : before.Upholds good) :
    after.Upholds good := by
  obtain ⟨known, store⟩ := starts
  -- The parts of `call` end with values that have the property.
  have ends (part : Call) (ending : Ending part.shape.Answer)
      (demanded : Demands limit call part) (passed : Passes limit call part)
      (starts : part.Upholds good)
      (derivation : Evaluates limit part.site part.task part.machine ending) :
      Ending.Upholds good part.shape ending :=
    derivation.upholds lasting (fun inner within => makes inner (.head ⟨demanded, passed⟩ within))
      starts.store starts.task
  cases effect with
  | float => exact (lasting.addFloat upholds _).2
  | array evaluated =>
    have elements := ends _ _ .arrayElements trivial ⟨trivial, store⟩ evaluated
    exact lasting.addArray upholds elements.1
  | set evaluated =>
    have elements := ends _ _ .setElements trivial ⟨List.forall_mem_nil _, store⟩ evaluated
    exact lasting.addSet upholds elements.1
  | map evaluated =>
    have entries := ends _ _ .mapEntries trivial ⟨List.forall_mem_nil _, store⟩ evaluated
    exact lasting.addMap upholds entries.1
  | operator => exact (Operator.apply_preserves lasting _ _ _ _ _ upholds).store
  | function => exact lasting.addClosure upholds _
  | block => exact lasting.addFrame upholds _
  | functionStruck => exact lasting.bind upholds _ _ holds_none
  | @functionBinding site _ _ mutable name _ _ machine =>
    have bound : (machine.store.bind site name ⟨none, mutable⟩).Upholds good :=
      lasting.bind upholds site name holds_none
    exact lasting.fill (lasting.addClosure bound _) site name (lasting.plain _ _ rfl)
  | @binding _ _ _ _ value _ last result evaluated =>
    have valued : good last.store result := by
      cases isFunction : value.isFunction with
      | true =>
        obtain ⟨_, _, _, rfl⟩ := exists_of_isFunction isFunction
        obtain ⟨_, rfl, rfl⟩ := visits_function evaluated
        exact lasting.plain _ _ rfl
      | false =>
        exact (ends _ _ .boundValue (by simp [Passes, isFunction]) ⟨trivial, store⟩ evaluated).1
    refine lasting.bind upholds _ _ ?_
    rintro _ ⟨⟩
    exact valued
  | assignment evaluated =>
    have valued := ends _ _ .assignedValue trivial ⟨trivial, store⟩ evaluated
    exact lasting.assign upholds _ _ valued.1
  | @builtin _ _ _ function arguments machine _ _ applied =>
    refine (lasting.apply upholds known (fun value size isLen single => ?_) applied).2
    subst isLen single
    exact makes _ .refl size
  | enter => exact entered_upholds lasting upholds known rfl

end

end Evaluation

/-! ## Sessions -/

namespace Session

variable {good : Store → Value → Prop} (lasting : Lasting good) {machine : Machine}
  {moves : List Move}

include lasting

/-- A fresh session holds the builtins only. -/
theorem start_upholds : start.store.Upholds good := by
  refine ⟨fun place frame found name slot member value isValue => ?_, nofun, nofun, nofun⟩
  match place with
  | 0 =>
    cases found
    obtain ⟨function, _, same⟩ := List.mem_map.mp member
    cases same
    cases isValue
    exact lasting.plain _ _ rfl
  | 1 =>
    cases found
    cases member
  | place + 2 => cases found

/-- A move leaves values with a lasting property, and its result has the property. -/
theorem Move.upholds
    (move : Move)
    (makes : ∀ limit call, Occurs machine [move] limit call → call.Makes good limit)
    (upholds : machine.store.Upholds good) :
    (move.perform machine).2.store.Upholds good ∧
      ∀ value, (move.perform machine).1 = .ok (some value) →
        good (move.perform machine).2.store value := by
  have ends := move.ends_perform machine
  generalize move.perform machine = result at ends ⊢
  cases ends with
  | stopped => exact ⟨upholds, nofun⟩
  | failed reads starts derivation =>
    refine ⟨?_, nofun⟩
    exact derivation.upholds lasting (fun inner within => makes _ _ (.now reads starts within))
      upholds Evaluation.holds_none
  | succeeded reads starts derivation =>
    obtain ⟨last, after⟩ := derivation.upholds lasting
      (fun inner within => makes _ _ (.now reads starts within)) upholds Evaluation.holds_none
    refine ⟨after, ?_⟩
    rintro value ⟨⟩
    exact last value rfl

theorem play_upholds
    (makes : ∀ limit call, Occurs machine moves limit call → call.Makes good limit)
    (upholds : machine.store.Upholds good) :
    (play moves machine).store.Upholds good := by
  induction moves generalizing machine with
  | nil => exact upholds
  | cons move rest hypothesis =>
    have performed := move.upholds lasting
      (fun limit call occurs => makes limit call (occurs.append rest)) upholds
    exact hypothesis (fun limit call occurs => makes limit call (.later occurs))
      performed.1

/-- Every evaluation that takes place in moves starts with values that have a lasting
property. -/
theorem Occurs.upholds
    {limit : Nat} {call : Evaluation.Call}
    (occurs : Occurs machine moves limit call)
    (makes : ∀ limit call, Occurs machine moves limit call → call.Makes good limit)
    (upholds : machine.store.Upholds good) :
    call.Upholds good := by
  induction occurs with
  | now reads starts within =>
    exact Evaluation.Within.upholds lasting within
      (fun inner inside => makes _ inner (.now reads starts inside))
      ⟨Evaluation.holds_none, upholds⟩
  | @later machine move rest _ _ _ hypothesis =>
    have performed := move.upholds lasting
      (fun limit call occurs => makes limit call (occurs.append rest)) upholds
    exact hypothesis (fun limit call occurs => makes limit call (.later occurs))
      performed.1

/-- Every store that moves pass holds values with a lasting property. -/
theorem Passes.upholds
    {store : Store}
    (passes : Passes machine moves machine.store store)
    (makes : ∀ limit call, Occurs machine moves limit call → call.Makes good limit)
    (upholds : machine.store.Upholds good) :
    store.Upholds good := by
  induction passes with
  | refl => exact upholds
  | tail _ happens hypothesis =>
    obtain ⟨limit, call, occurs, effect⟩ := happens
    refine effect.upholds lasting (fun inner within => ?_)
      (occurs.upholds lasting makes upholds) hypothesis
    exact makes limit inner (occurs.within within)

end Session

end Offside
