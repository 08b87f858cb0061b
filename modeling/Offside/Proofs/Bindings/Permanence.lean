import Offside.Proofs.Bindings.Causes

namespace Offside

/-!
# Bindings are permanent

A session goes on by moves that share the global frame: a source is read and run, or a
program that is at hand is executed.  Whether a move succeeds or fails, what it does to the
store is one effect after the other, each of an evaluation that takes place in it.  Along
these effects a frame keeps every name that it binds, with its flag; a name that is not
mutable keeps its value, and a mutable one changes it by assignments only.
-/

namespace Session

variable {place : Nat} {name : Text}

namespace Move

/-- The machine after a move is the one on which the execution of what it reads ends. -/
theorem perform_machine (move : Move) (machine : Machine) :
    (move.perform machine).2 = (executeRead move.settings move.read machine).2 := by
  cases move with
  | step asked => exact asked.perform_machine machine
  | execute settings program => rfl

end Move

open Evaluation (Call Evaluates Within Effect Makes)

/-- The evaluation takes place in one of the moves that start from a machine. -/
inductive Occurs : (machine : Machine) → (moves : List Move) → (limit : Nat) → (call : Call) →
    Prop where
  | now
      {machine : Machine} {move : Move} {rest : List Move} {statements : List Stmt}
      {call : Call} :
      move.read = .ok statements →
      1000 + 32 * move.settings.maxCallDepth ≤ Evaluation.mostStack →
      Within move.settings.maxCallDepth
        ⟨_, Evaluation.startSite move.settings.maxCallDepth Store.globalScope,
          .stmts none statements, machine⟩ call →
      Occurs machine (move :: rest) move.settings.maxCallDepth call
  | later
      {machine : Machine} {move : Move} {rest : List Move} {limit : Nat} {call : Call} :
      Occurs (move.perform machine).2 rest limit call →
      Occurs machine (move :: rest) limit call

/-- An effect of an evaluation that takes place in the moves. -/
def Happens (machine : Machine) (moves : List Move) (before after : Store) : Prop :=
  ∃ limit call, Occurs machine moves limit call ∧ Effect limit call before after

/-- The moves lead from one store to another, one effect after the other. -/
abbrev Passes (machine : Machine) (moves : List Move) : (before after : Store) → Prop :=
  Relation.ReflTransGen (Happens machine moves)

/-- What a move does to the store is effects of evaluations that take place in it. -/
theorem Move.passes (move : Move) (rest : List Move) (machine : Machine) :
    Passes machine (move :: rest) machine.store (move.perform machine).2.store := by
  rw [Move.perform_machine]
  cases reads : move.read with
  | error reason => exact .refl
  | ok statements =>
    have executed := Evaluation.executes_execute move.settings.maxCallDepth
      Store.globalScope statements machine
    show Passes machine _ machine.store (outcome _ machine).2.store
    unfold outcome
    generalize Evaluation.execute _ _ _ _ = ending at executed ⊢
    cases executed with
    | refused => exact .refl
    | evaluated starts derivation =>
      have passes : Passes machine (move :: rest) machine.store
          (Evaluation.Ending.machine ending).store := by
        refine derivation.relates (fun _ => .refl) .trans fun call before after within effect => ?_
        exact .single ⟨_, call, .now reads starts within, effect⟩
      cases ending <;> exact passes

/-- What moves do to the store is effects of evaluations that take place in them. -/
theorem play_passes (moves : List Move) (machine : Machine) :
    Passes machine moves machine.store (play moves machine).store := by
  induction moves generalizing machine with
  | nil => exact .refl
  | cons move rest hypothesis =>
    refine (move.passes rest machine).trans ?_
    refine Relation.ReflTransGen.mono ?_ _ _ (hypothesis (move.perform machine).2)
    rintro before after ⟨limit, call, occurs, effect⟩
    exact ⟨limit, call, .later occurs, effect⟩

/-- A change of the frames that is made in the moves. -/
def Caused (machine : Machine) (moves : List Move) (change : FrameChange) : Prop :=
  ∃ limit call, Occurs machine moves limit call ∧ Makes limit call change

/-- Stores to which moves lead evolve by changes that are made in the moves. -/
theorem Passes.evolves
    {machine : Machine} {moves : List Move} {before after : Store}
    (passes : Passes machine moves before after) :
    before.Evolves (Caused machine moves) after := by
  induction passes with
  | refl => exact .refl _ _
  | tail _ happens hypothesis =>
    obtain ⟨limit, call, occurs, effect⟩ := happens
    refine hypothesis.trans (effect.evolves.mono fun change made => ?_)
    exact ⟨limit, call, occurs, made⟩

/-- In the moves an assignment statement gives a value to a name that a frame binds. -/
def Assigned (machine : Machine) (moves : List Move) (place : Nat) (name : Text)
    (value : Value) : Prop :=
  ∃ limit site span expr before after,
    Occurs machine moves limit ⟨_, site, .stmt (.assignment span name expr), before⟩ ∧
      Evaluates limit (site.inside 1) (.visit expr) before (.ok value after) ∧
      after.store.assignedFrame site name = .ok place

theorem assigned_of_caused
    {machine : Machine} {moves : List Move} {value : Value}
    (caused : Caused machine moves (.assigned place name value)) :
    Assigned machine moves place name value := by
  obtain ⟨limit, call, occurs, makes⟩ := caused
  cases makes with
  | assignment evaluated assigned => exact ⟨_, _, _, _, _, _, occurs, evaluated, assigned⟩

/-- How a frame of a session came to bind a name, and whether it may be assigned: the
builtins and the parameters of a call may not, and `let` and `var` statements say it
themselves. -/
inductive Origin (moves : List Move) (place : Nat) (name : Text) : (mutable : Bool) → Prop where
  | builtin
      {function : Builtin} :
      place = Store.builtinFrame →
      name = function.name →
      Origin moves place name false
  | parameter
      {limit : Nat} {site : Site} {span : Span} {callee : Text} {index : Nat}
      {closure : Closure} {arguments : List Value} {machine : Machine} :
      Occurs start moves limit ⟨_, site, .apply span callee (.closure index) arguments, machine⟩ →
      machine.store.closures[index]? = some closure →
      name ∈ closure.parameters →
      place = machine.store.frames.size →
      Origin moves place name false
  | statement
      {limit : Nat} {site : Site} {span : Span} {mutable : Bool} {value : Expr}
      {machine : Machine} :
      Occurs start moves limit ⟨_, site, .stmt (.binding span mutable name value), machine⟩ →
      site.scope.head? = some place →
      Origin moves place name mutable

theorem origin_of_caused
    {moves : List Move} {mutable : Bool} {value : Option Value}
    (caused : Caused start moves (.bound place name mutable value)) :
    Origin moves place name mutable := by
  obtain ⟨limit, call, occurs, makes⟩ := caused
  cases makes with
  | parameter found _ member =>
    exact .parameter occurs found (List.of_mem_zip member).1 rfl
  | binding head | struck head => exact .statement occurs head

/-- A fresh session binds the builtins, which have values and may not be assigned. -/
theorem slot?_initial {slot : Slot} (bound : Store.initial.slot? place name = some slot) :
    place = Store.builtinFrame ∧
      ∃ function : Builtin, name = function.name ∧ slot = ⟨some (.builtin function), false⟩ := by
  match place with
  | 0 =>
    obtain ⟨before, after, split, _⟩ := List.lookup_eq_some_iff.mp bound
    have member : (name, slot) ∈ Builtin.all.map fun function =>
        (Text.ofString function.name, (⟨some (.builtin function), false⟩ : Slot)) := by
      refine (congrArg ((name, slot) ∈ ·) split).mpr ?_
      simp
    obtain ⟨function, _, same⟩ := List.mem_map.mp member
    cases same
    exact ⟨rfl, function, rfl, rfl⟩
  | 1 => cases bound
  | place + 2 => simp [Store.slot?, Store.frame?, Store.initial] at bound

theorem finished_initial : Store.initial.Finished := by
  intro place name slot bound
  obtain ⟨_, _, _, rfl⟩ := slot?_initial bound
  rfl

/-- In every store that a session passes, a binding has the flag of its origin. -/
theorem Passes.origin
    {moves : List Move} {store : Store} {slot : Slot}
    (passes : Passes start moves start.store store)
    (bound : store.slot? place name = some slot) :
    Origin moves place name slot.mutable := by
  rcases passes.evolves.origin bound with ⟨old, boundBefore⟩ | ⟨value, caused⟩
  · obtain ⟨later, boundLater, turns⟩ := passes.evolves.turns boundBefore
    cases bound.symm.trans boundLater
    rw [turns.mutable_eq]
    obtain ⟨atBuiltins, function, named, rfl⟩ := slot?_initial boundBefore
    exact .builtin atBuiltins named
  · exact origin_of_caused caused

end Session

/-- Bindings are permanent.  From the machine that any moves reach in a fresh session,
further moves lead on one effect after the other, and along these effects a frame keeps each
name that it binds, with its flag.  If the binding is not mutable it does not change at all,
and if it is, it changes only to a value that an assignment statement in the further moves
gives to this name in this frame.  In every store of the session only those bindings that a
`var` statement made are mutable: builtins, parameters and the names of `let` statements are
not. -/
theorem bindings_are_permanent (earlier later : List Session.Move) :
    let reached := Session.play earlier Session.start
    Session.Passes reached later reached.store (Session.play later reached).store ∧
      (∀ before after, Session.Passes reached later before after →
        ∀ place name slot, before.slot? place name = some slot →
          ∃ kept, after.slot? place name = some kept ∧
            kept.mutable = slot.mutable ∧
            (slot.mutable = false → kept = slot) ∧
            (kept ≠ slot → ∃ value, kept = ⟨some value, true⟩ ∧
              Session.Assigned reached later place name value)) ∧
      ∀ store, Session.Passes Session.start earlier Session.start.store store →
        ∀ place name slot, store.slot? place name = some slot →
          Session.Origin earlier place name slot.mutable := by
  intro reached
  refine ⟨Session.play_passes later reached, ?_, fun store passes place name slot => passes.origin⟩
  intro before after passes place name slot bound
  obtain ⟨kept, boundAfter, turns⟩ := passes.evolves.turns bound
  refine ⟨kept, boundAfter, turns.mutable_eq, fun immutable => ?_, fun changed => ?_⟩
  · rcases turns with same | ⟨mutable, _⟩
    · exact same
    · cases immutable.symm.trans mutable
  · rcases turns with same | ⟨_, value, caused, assigned⟩
    · exact absurd same changed
    · exact ⟨value, assigned, Session.assigned_of_caused caused⟩

/-- A move that binds two names. -/
def Session.twoBindings : List Session.Move :=
  [.step ⟨.default, "let a = 1\nvar b = 2", false⟩]

/-- A move that assigns to one name and then fails at the other. -/
def Session.twoAssignments : List Session.Move :=
  [.step ⟨.default, "b = 3\na = 4", false⟩]

/-- After a move that fails, the name of `let` has its value and the name of `var` the one
that was assigned to it. -/
theorem bindings_are_permanent_after_failure :
    let reached := Session.play Session.twoBindings Session.start
    let last := Session.play Session.twoAssignments reached
    reached.store.slot? Store.globalFrame "a" = some ⟨some (.int 1), false⟩ ∧
      last.store.slot? Store.globalFrame "a" = some ⟨some (.int 1), false⟩ ∧
      reached.store.slot? Store.globalFrame "b" = some ⟨some (.int 2), true⟩ ∧
      last.store.slot? Store.globalFrame "b" = some ⟨some (.int 3), true⟩ ∧
      Session.Assigned reached Session.twoAssignments Store.globalFrame "b" (.int 3) := by
  intro reached last
  have letBefore : reached.store.slot? Store.globalFrame "a" = some ⟨some (.int 1), false⟩ := by
    decide +kernel
  have varBefore : reached.store.slot? Store.globalFrame "b" = some ⟨some (.int 2), true⟩ := by
    decide +kernel
  have varAfter : last.store.slot? Store.globalFrame "b" = some ⟨some (.int 3), true⟩ := by
    decide +kernel
  obtain ⟨passes, keeps, _⟩ :=
    bindings_are_permanent Session.twoBindings Session.twoAssignments
  obtain ⟨letKept, letAfter, _, letSame, _⟩ := keeps _ _ passes _ _ _ letBefore
  obtain ⟨varKept, varFound, _, _, varChanged⟩ := keeps _ _ passes _ _ _ varBefore
  cases varFound.symm.trans varAfter
  obtain ⟨value, same, assigned⟩ := varChanged (by decide)
  cases same
  exact ⟨letBefore, letSame rfl ▸ letAfter, varBefore, varAfter, assigned⟩

end Offside
