import Offside.Proofs.Failures.Internal

namespace Offside

/-!
# The completed bindings persist

Statements are executed in order up to the first that fails.  The frame in which they are
executed then has its old names and after them those that the completed statements bind, and
no other frame that was there before gets a name.  The statement that fails binds nothing and
leaves no binding without a value, with one exception: a function is bound before it is made,
and where the host stack overflows in between, the binding stays without a value.
-/

/-- The name that a statement binds, if it binds one. -/
def Stmt.declared? : Stmt → Option Text
  | .binding _ _ name _ => some name
  | _ => none

namespace Store

variable {store : Store} {place : Nat} {name : Text}

/-- Binding a name in a frame that is there adds it to the names of the frame. -/
theorem names_bind (present : place < store.frames.size) (outer : Scope) (slot : Slot) :
    (store.bind (place :: outer) name slot).names place = store.names place ++ [name] := by
  have found : store.frame? place = some store.frames[place] :=
    Array.getElem?_eq_getElem present
  have changed : (store.bind (place :: outer) name slot).frames =
      store.frames.modify place (·.bind name slot) := rfl
  rw [names_of_modify changed, if_pos rfl, names, found]
  simp

/-- Giving a name a value leaves the names of every frame as they are. -/
theorem names_modifyFrame_fill (target : Nat) (value : Value) :
    (store.modifyFrame target (·.fill name value)).names place = store.names place := by
  have changed : (store.modifyFrame target (·.fill name value)).frames =
      store.frames.modify target (·.fill name value) := rfl
  rw [names_of_modify changed]
  simp [names]

end Store

namespace Evaluation

variable {limit : Nat} {machine : Machine} {place : Nat} {site : Site}
variable {ending : Ending (Option Value)} {last : Option Value} {statements : List Stmt}

/-- An expression binds no name in a frame that was there before. -/
theorem Evaluates.names_visit
    {root : Expr} {ending : Ending Value}
    (derivation : Evaluates limit site (.visit root) machine ending)
    (present : place < machine.store.frames.size) :
    (Ending.machine ending).store.names place = machine.store.names place := by
  refine derivation.evolves.names_eq fun name mutable value caused => ?_
  rcases caused.opened_or_own with opened | ⟨declares, _⟩
  · exact absurd present (Nat.not_lt.mpr opened)
  · cases declares

/-- Where a function binding is struck, less than six levels are left of the host stack. -/
theorem room_lt_of_struck
    {span : Span} {parameters : List Text} {body : Expr}
    (short : (site.inside 2).room < (Expr.function span parameters body).reach) :
    site.room < 6 := by
  have left : site.room - 2 < 4 := short
  omega

/-- The names of a frame at the end of a statement: those that it had before and, if the
statement succeeds, the ones that are added.  A statement that fails adds them only if the
host stack overflows for want of the levels that a function binding takes. -/
def Ending.Names (limit room place : Nat) (before added : List Text) : Ending Value → Prop
  | .ok _ after => after.store.names place = before ++ added
  | .error reason after => after.store.names place = before ∨
      reason = hostOverflow limit ∧ room < 6 ∧ after.store.names place = before ++ added

variable {outer : Scope} {room : Nat}

/-- A statement that succeeds adds the name that it binds to the frame in which it is
executed, and one that fails adds none, unless the making of a function is struck. -/
theorem Evaluates.names_stmt
    {root : Stmt} {ending : Ending Value}
    (derivation : Evaluates limit ⟨place :: outer, room⟩ (.stmt root) machine ending)
    (present : place < machine.store.frames.size) :
    ending.Names limit room place (machine.store.names place) root.declared?.toList := by
  cases derivation with
  | functionRefused _ refused =>
    obtain ⟨rfl, _⟩ := Action.of_define_error refused
    exact .inl rfl
  | functionFails isFunction defined evaluated =>
    obtain ⟨_, _, _, rfl⟩ := exists_of_isFunction isFunction
    obtain ⟨_, rfl⟩ := Action.of_define_ok defined
    obtain ⟨short, rfl, rfl⟩ := visit_function_fails evaluated
    exact .inr ⟨rfl, room_lt_of_struck short, Store.names_bind present outer _⟩
  | functionBinding isFunction defined evaluated =>
    obtain ⟨_, _, _, rfl⟩ := exists_of_isFunction isFunction
    obtain ⟨_, rfl⟩ := Action.of_define_ok defined
    obtain ⟨_, rfl, rfl⟩ := visits_function evaluated
    refine (Store.names_modifyFrame_fill _ _).trans ?_
    exact Store.names_bind present outer _
  | bindingFails _ evaluated | assignmentFails evaluated =>
    exact .inl (evaluated.names_visit present)
  | binding _ evaluated =>
    have sameNames := evaluated.names_visit present
    have stillPresent := Nat.lt_of_lt_of_le present evaluated.evolves.size_le
    rw [← sameNames]
    exact Action.define_ends (motive := Ending.Names limit room place _ _)
      (fun _ => Store.names_bind stillPresent outer _) fun _ => .inl rfl
  | assignment evaluated =>
    have sameNames := evaluated.names_visit present
    rw [← sameNames]
    refine Action.assign_ends (motive := Ending.Names limit room place _ [])
      (fun assigned _ => ?_) fun _ => .inl rfl
    refine (Store.names_modifyFrame_fill assigned _).trans ?_
    exact (List.append_nil _).symm
  | expression evaluated =>
    have sameNames := evaluated.names_visit present
    cases ending with
    | ok value after => exact sameNames.trans (List.append_nil _).symm
    | error reason after => exact .inl sameNames

theorem Evaluates.names_visitStmt
    {root : Stmt} {ending : Ending Value}
    (derivation : Evaluates limit ⟨place :: outer, room⟩ (.visitStmt root) machine ending)
    (present : place < machine.store.frames.size) :
    ending.Names limit room place (machine.store.names place) root.declared?.toList := by
  cases derivation with
  | stmtOverflow => exact .inl rfl
  | visitStmt _ evaluated => exact evaluated.names_stmt present

/-- How far the execution of statements gets: all of them are completed, or those up to one
that fails. -/
inductive Completes (limit : Nat) (site : Site) (last : Option Value) (machine : Machine) :
    (completed rest : List Stmt) → Ending (Option Value) → Prop where
  | all
      {completed : List Stmt} {value : Option Value} {after : Machine} :
      Evaluates limit site (.stmts last completed) machine (.ok value after) →
      Completes limit site last machine completed [] (.ok value after)
  | upTo
      {completed later : List Stmt} {failing : Stmt} {value : Option Value}
      {between after : Machine} {reason : Failure} :
      Evaluates limit site (.stmts last completed) machine (.ok value between) →
      Evaluates limit site (.visitStmt failing) between (.error reason after) →
      Completes limit site last machine completed (failing :: later) (.error reason after)

/-- Statements are executed in order, all of them or up to one that fails. -/
theorem Evaluates.completes
    (derivation : Evaluates limit site (.stmts last statements) machine ending) :
    ∃ completed rest, statements = completed ++ rest ∧
      Completes limit site last machine completed rest ending := by
  induction statements generalizing last machine with
  | nil =>
    cases derivation with
    | noStmts => exact ⟨[], [], rfl, .all .noStmts⟩
  | cons first rest hypothesis =>
    cases derivation with
    | stmtFails failed => exact ⟨[], first :: rest, rfl, .upTo .noStmts failed⟩
    | stmts firstEvaluated restEvaluated =>
      obtain ⟨completed, remaining, rfl, completes⟩ := hypothesis restEvaluated
      refine ⟨first :: completed, remaining, rfl, ?_⟩
      cases completes with
      | all evaluated => exact .all (.stmts firstEvaluated evaluated)
      | upTo evaluated failed => exact .upTo (.stmts firstEvaluated evaluated) failed

/-- Statements that succeed add the names that they bind, in order. -/
theorem Evaluates.names_stmts
    {value : Option Value} {after : Machine}
    (derivation : Evaluates limit ⟨place :: outer, room⟩ (.stmts last statements) machine
      (.ok value after))
    (present : place < machine.store.frames.size) :
    after.store.names place =
      machine.store.names place ++ statements.filterMap Stmt.declared? := by
  induction statements generalizing last machine with
  | nil =>
    cases derivation with
    | noStmts => simp
  | cons first rest hypothesis =>
    cases derivation with
    | stmts firstEvaluated restEvaluated =>
      have stillPresent := Nat.lt_of_lt_of_le present firstEvaluated.evolves.size_le
      have firstNames := firstEvaluated.names_visitStmt present
      rw [hypothesis restEvaluated stillPresent, firstNames, List.append_assoc]
      cases declared : first.declared? <;> simp [declared]

/-- The frame of the statements gets the names of those that are completed, and that of the
failing one only if the making of its function is struck. -/
theorem Completes.names
    {completed rest : List Stmt}
    (completes : Completes limit ⟨place :: outer, room⟩ last machine completed rest ending)
    (present : place < machine.store.frames.size) :
    (Ending.machine ending).store.names place =
        machine.store.names place ++ completed.filterMap Stmt.declared? ∨
      Ending.reason? ending = some (hostOverflow limit) ∧ room < 6 ∧
        (Ending.machine ending).store.names place =
          machine.store.names place ++ (completed ++ rest.take 1).filterMap Stmt.declared? := by
  cases completes with
  | all evaluated => exact .inl (evaluated.names_stmts present)
  | @upTo later failing _ between after reason evaluated failed =>
    have stillPresent := Nat.lt_of_lt_of_le present evaluated.evolves.size_le
    have before := evaluated.names_stmts present
    rcases failed.names_visitStmt stillPresent with sameNames | ⟨rfl, cramped, added⟩
    · exact .inl (sameNames.trans before)
    · refine .inr ⟨rfl, cramped, ?_⟩
      show after.store.names place = _
      rw [added, before, List.filterMap_append, List.append_assoc]
      cases declared : failing.declared? <;> simp [declared]

/-- Statements bind no name in a frame that was there before and is not their own. -/
theorem Evaluates.names_elsewhere
    {other : Nat}
    (derivation : Evaluates limit ⟨place :: outer, room⟩ (.stmts last statements) machine ending)
    (present : other < machine.store.frames.size)
    (apart : other ≠ place) :
    (Ending.machine ending).store.names other = machine.store.names other := by
  refine derivation.evolves.names_eq fun name mutable value caused => ?_
  rcases caused.opened_or_own with opened | ⟨_, own⟩
  · exact absurd present (Nat.not_lt.mpr opened)
  · cases own
    exact apart rfl

/-- Within statements a function binding is struck only in a frame that is opened within
them, or for want of room where they are executed. -/
theorem Causes.struck
    {frame : Nat} {name : Text} {mutable : Bool}
    (causes : Causes limit ⟨_, ⟨place :: outer, room⟩, .stmts last statements, machine⟩
      (.bound frame name mutable none)) :
    machine.store.frames.size ≤ frame ∨ frame = place ∧ room < 6 := by
  obtain ⟨inner, within, makes⟩ := causes
  cases makes with
  | @struck site _ span mutable name value before head allowed isFunction short =>
    refine (within.opened_or_own rfl head).imp_right ?_
    rintro ⟨_, rfl⟩
    obtain ⟨_, _, _, rfl⟩ := exists_of_isFunction isFunction
    cases head
    exact ⟨rfl, room_lt_of_struck short⟩

/-- The completed bindings persist, and no others, unless the host stack overflows.  Whatever
the statements, the scope, the room on the host stack and the machine, the execution of
statements is refused at once or completes some of them, all or up to one that fails.  At its
end the names of the frame in which they are executed are its old names, followed by those
that the completed statements bind, in order; every other frame that was there before has its
old names; and a binding without a value, in any frame, was there without one before.  If the
execution ends because the host stack overflows, there may be a new binding without a value
in a frame that was opened by it, and with less than six levels left at its start also the
name of the failing statement, in its own frame. -/
theorem completed_bindings_persist
    {limit place room : Nat}
    {outer : Scope}
    {machine : Machine}
    (present : place < machine.store.frames.size)
    (statements : List Stmt) :
    let ending := executeAt limit ⟨place :: outer, room⟩ statements machine
    let after := (Ending.machine ending).store
    let overflows := Ending.reason? ending = some (hostOverflow limit)
    ∃ completed rest, statements = completed ++ rest ∧
      ((mostStack < 1000 + 32 * limit ∧ completed = [] ∧
          ending = .error (.abort .stackReservation) machine) ∨
        Completes limit ⟨place :: outer, room⟩ none machine completed rest ending) ∧
      (after.names place = machine.store.names place ++ completed.filterMap Stmt.declared? ∨
        overflows ∧ room < 6 ∧ after.names place =
          machine.store.names place ++ (completed ++ rest.take 1).filterMap Stmt.declared?) ∧
      (∀ other, other < machine.store.frames.size → other ≠ place →
        after.names other = machine.store.names other) ∧
      ∀ frame name mutable, after.slot? frame name = some ⟨none, mutable⟩ →
        machine.store.slot? frame name = some ⟨none, mutable⟩ ∨
          overflows ∧ (machine.store.frames.size ≤ frame ∨ frame = place ∧ room < 6) := by
  intro ending after overflows
  have executed : Executes limit ⟨place :: outer, room⟩ statements machine ending :=
    executes_executeAt limit ⟨place :: outer, room⟩ statements machine
  clear_value ending
  cases executed with
  | refused tooDeep =>
    refine ⟨[], statements, rfl, .inl ⟨tooDeep, rfl, rfl⟩, .inl ?_, fun _ _ _ => rfl,
      fun _ _ _ bound => .inl bound⟩
    exact (List.append_nil _).symm
  | evaluated _ derivation =>
    obtain ⟨completed, rest, split, completes⟩ := derivation.completes
    refine ⟨completed, rest, split, .inr completes, completes.names present, ?_, ?_⟩
    · exact fun other presentOther apart => derivation.names_elsewhere presentOther apart
    · intro frame name mutable bound
      refine (derivation.evolves.unfinished bound rfl).imp_right fun struck => ?_
      exact ⟨derivation.overflows_of_struck struck, struck.struck⟩

/-- A program of four bindings, the third of which fails. -/
def fourBindings : List Stmt :=
  match Program.ofSource none "let a = 1\nvar b = a\nlet c = missing\nlet d = 4" with
  | .ok program => program.statements
  | .error _ => []

/-- When the third of four bindings fails, the names of the first two are the ones that
stay. -/
theorem completed_bindings_persist_up_to_failure :
    Store.globalFrame < Session.start.store.frames.size ∧
      fourBindings.filterMap Stmt.declared? = ["a", "b", "c", "d"] ∧
      ∃ completed rest, fourBindings = completed ++ rest ∧
        completed.filterMap Stmt.declared? = ["a", "b"] ∧
        Completes 100 (startSite 100 Store.globalScope) none Session.start completed rest
          (execute 100 Store.globalScope fourBindings Session.start) := by
  have present : Store.globalFrame < Session.start.store.frames.size := by decide
  have names : (Ending.machine (execute 100 Store.globalScope fourBindings
      Session.start)).store.names Store.globalFrame = ["a", "b"] := by decide +kernel
  obtain ⟨completed, rest, split, completes, added, _⟩ :=
    @completed_bindings_persist 100 _ (hostRoom + 32 * 100) [Store.builtinFrame] _ present
      fourBindings
  have kept : completed.filterMap Stmt.declared? = ["a", "b"] := by
    rcases added with added | ⟨_, cramped, _⟩
    · exact added.symm.trans names
    · exact absurd cramped (by decide)
  refine ⟨present, by decide +kernel, completed, rest, split, kept, ?_⟩
  rcases completes with ⟨tooDeep, _⟩ | completes
  · exact absurd tooDeep (by decide)
  · exact completes

end Evaluation

namespace Session

/-- A step in which a function calls itself within a sum that is long enough for the host
stack to overflow before the call depth is used up.  Each call assigns a function that refers
to `g` and then binds `g`. -/
def struckBinding : Step :=
  let zeros : Text := (List.replicate 36 (Text.ofString " + 0")).flatten
  let body : Text := "  h = fun u -> g u\n  let g = fun x -> x\n  f p"
  ⟨{ Settings.default with maxCallDepth := 24 },
    Text.ofString "var h = 0\nlet f p =\n" ++ body ++ zeros ++ Text.ofString "\nlet r = f 0",
    false⟩

/-- A step that calls the last function which such a step assigned. -/
def struckUse : Step :=
  ⟨.default, "h 1", true⟩

/-- The overflow comes between the binding of `g` and the making of its function, and what
then refers to `g` fails for an internal cause. -/
theorem struckBinding_ends :
    (struckBinding.perform start).1 = .error (Evaluation.hostOverflow 24) ∧
      (after [struckBinding]).store.slot? 47 "g" = some ⟨none, false⟩ ∧
      (match (struckUse.perform (after [struckBinding])).1 with
        | .ok _ => false
        | .error failure => failure.isInternal) = true := by
  decide +kernel

end Session

/-- A binding can stay that was not completed: a function is bound in a frame that the step
opens, the host stack overflows, and the name is left without a value. -/
theorem struck_binding_persists :
    (Session.struckBinding.perform Session.start).1 =
        .error (Evaluation.hostOverflow 24) ∧
      Session.start.store.frames.size ≤ 47 ∧
      (Session.after [Session.struckBinding]).store.slot? 47 "g" = some ⟨none, false⟩ := by
  obtain ⟨overflows, unfinished, _⟩ := Session.struckBinding_ends
  exact ⟨overflows, by decide, unfinished⟩

end Offside
