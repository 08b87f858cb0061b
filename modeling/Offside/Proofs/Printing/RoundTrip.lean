import Offside.Proofs.Printing.Writing

namespace Offside

/-!
# Printed programs are read back

Every program that can be written has a text that is read as this program, up to the limit of
nesting.  The pen shows that the text has the word of the program, and the grammar derives this
word as the program.
-/

/-! ## Equality apart from spans -/

/-- An expression that can be written outside of a body can be written as a body. -/
theorem Expr.writable_true {expr : Expr} (writable : expr.writable false = true) :
    expr.writable true = true := by
  cases expr with
  | block => cases writable
  | _ => exact writable

/-- What is the same bare tree as a tree that can be written is alike to it. -/
def Expr.Alike (expr : Expr) : Prop :=
  ∀ other : Expr, other.bare = expr.bare → expr.writable true = true → other.alike expr = true

/-- What is the same bare statement as one that can be written is alike to it. -/
def Stmt.Alike (stmt : Stmt) : Prop :=
  ∀ other : Stmt, other.bare = stmt.bare → stmt.writable = true → other.alike stmt = true

namespace Expr

theorem alikeAll_of_bare
    {exprs others : List Expr}
    (alike : ∀ expr ∈ exprs, expr.Alike)
    (same : Expr.bareAll others = Expr.bareAll exprs)
    (writable : Expr.writableAll exprs = true) :
    Expr.alikeAll others exprs = true := by
  induction exprs generalizing others with
  | nil =>
    cases others with
    | nil => rw [Expr.alikeAll]
    | cons => cases same
  | cons expr exprs hypothesis =>
    cases others with
    | nil => cases same
    | cons other others =>
      obtain ⟨sameFirst, sameRest⟩ := List.cons.inj same
      obtain ⟨firstWritable, restWritable⟩ := Bool.and_eq_true_iff.mp writable
      obtain ⟨firstAlike, restAlike⟩ := List.forall_mem_cons.mp alike
      rw [Expr.alikeAll]
      exact Bool.and_eq_true_iff.mpr
        ⟨firstAlike other sameFirst (writable_true firstWritable),
          hypothesis restAlike sameRest restWritable⟩

theorem entries_alikeAll_of_bare
    {entries others : List Entry}
    (alike : ∀ place key value, Entry.pair place key value ∈ entries → key.Alike ∧ value.Alike)
    (same : Entry.bareAll others = Entry.bareAll entries)
    (writable : Entry.writableAll entries = true) :
    Entry.alikeAll others entries = true := by
  induction entries generalizing others with
  | nil =>
    cases others with
    | nil => rw [Entry.alikeAll]
    | cons => cases same
  | cons entry entries hypothesis =>
    cases others with
    | nil => cases same
    | cons other others =>
      obtain ⟨place, key, value⟩ := entry
      obtain ⟨otherPlace, otherKey, otherValue⟩ := other
      obtain ⟨sameFirst, sameRest⟩ := List.cons.inj same
      obtain ⟨-, sameKey, sameValue⟩ := Entry.pair.inj sameFirst
      obtain ⟨firstWritable, restWritable⟩ := Bool.and_eq_true_iff.mp writable
      obtain ⟨keyWritable, valueWritable⟩ := Bool.and_eq_true_iff.mp firstWritable
      obtain ⟨keyAlike, valueAlike⟩ := alike place key value List.mem_cons_self
      have restAlike (place : Span) (key value : Expr)
          (member : Entry.pair place key value ∈ entries) :=
        alike place key value (List.mem_cons_of_mem _ member)
      rw [Entry.alikeAll, Entry.alike]
      refine Bool.and_eq_true_iff.mpr ⟨Bool.and_eq_true_iff.mpr ⟨?_, ?_⟩,
        hypothesis restAlike sameRest restWritable⟩
      · exact keyAlike otherKey sameKey (writable_true keyWritable)
      · exact valueAlike otherValue sameValue (writable_true valueWritable)

end Expr

theorem Stmt.alikeAll_of_bare
    {stmts others : List Stmt}
    (alike : ∀ stmt ∈ stmts, stmt.Alike)
    (same : Stmt.bareAll others = Stmt.bareAll stmts)
    (writable : Stmt.writableAll stmts = true) :
    Stmt.alikeAll others stmts = true := by
  induction stmts generalizing others with
  | nil =>
    cases others with
    | nil => rw [Stmt.alikeAll]
    | cons => cases same
  | cons stmt stmts hypothesis =>
    cases others with
    | nil => cases same
    | cons other others =>
      obtain ⟨sameFirst, sameRest⟩ := List.cons.inj same
      obtain ⟨firstWritable, restWritable⟩ := Bool.and_eq_true_iff.mp writable
      obtain ⟨firstAlike, restAlike⟩ := List.forall_mem_cons.mp alike
      rw [Stmt.alikeAll]
      exact Bool.and_eq_true_iff.mpr ⟨firstAlike other sameFirst firstWritable,
        hypothesis restAlike sameRest restWritable⟩

/-- A tree that is alike part by part is alike. -/
theorem treeSteps_alike : TreeSteps Expr.Alike Stmt.Alike where
  leaf expr isLeaf other same writable := by
    cases expr with
    | int
    | string
    | char
    | bool
    | identifier =>
      cases other <;> cases same
      rw [Expr.alike]
      exact beq_self_eq_true _
    | float => cases writable
    | _ => cases isLeaf
  array _ elements alike other same writable := by
    cases other with
    | array =>
      rw [Expr.alike]
      exact Expr.alikeAll_of_bare alike (Expr.array.inj same).2 writable
    | _ => cases same
  set _ elements alike other same writable := by
    cases other with
    | set =>
      rw [Expr.alike]
      exact Expr.alikeAll_of_bare alike (Expr.set.inj same).2 (Bool.and_eq_true_iff.mp writable).2
    | _ => cases same
  map _ entries alike other same writable := by
    cases other with
    | map =>
      rw [Expr.alike]
      exact Expr.entries_alikeAll_of_bare alike (Expr.map.inj same).2
        (Bool.and_eq_true_iff.mp writable).2
    | _ => cases same
  binary _ left operator right leftAlike rightAlike other same writable := by
    cases other with
    | binary =>
      obtain ⟨-, sameLeft, rfl, sameRight⟩ := Expr.binary.inj same
      obtain ⟨writable, rightWritable⟩ := Bool.and_eq_true_iff.mp writable
      obtain ⟨-, leftWritable⟩ := Bool.and_eq_true_iff.mp writable
      rw [Expr.alike, leftAlike _ sameLeft (Expr.writable_true leftWritable),
        rightAlike _ sameRight (Expr.writable_true rightWritable), beq_self_eq_true]
      rfl
    | _ => cases same
  function _ parameters body alike other same writable := by
    cases other with
    | function =>
      obtain ⟨-, rfl, sameBody⟩ := Expr.function.inj same
      rw [Expr.alike, alike _ sameBody (Bool.and_eq_true_iff.mp writable).2, beq_self_eq_true]
      rfl
    | _ => cases same
  call _ callee arguments calleeAlike alike other same writable := by
    cases other with
    | call =>
      obtain ⟨-, sameCallee, sameArguments⟩ := Expr.call.inj same
      obtain ⟨calleeWritable, writable⟩ := Bool.and_eq_true_iff.mp writable
      rw [Expr.alike, calleeAlike _ sameCallee (Expr.writable_true calleeWritable)]
      exact Expr.alikeAll_of_bare alike sameArguments writable
    | _ => cases same
  index _ target key targetAlike keyAlike other same writable := by
    cases other with
    | index =>
      obtain ⟨-, sameTarget, sameKey⟩ := Expr.index.inj same
      obtain ⟨targetWritable, keyWritable⟩ := Bool.and_eq_true_iff.mp writable
      rw [Expr.alike, targetAlike _ sameTarget (Expr.writable_true targetWritable)]
      exact keyAlike _ sameKey (Expr.writable_true keyWritable)
    | _ => cases same
  block _ statements alike other same writable := by
    cases other with
    | block =>
      rw [Expr.alike]
      exact Stmt.alikeAll_of_bare alike (Expr.block.inj same).2
        (Bool.and_eq_true_iff.mp writable).2
    | _ => cases same
  binding _ mutable name value alike _ other same writable := by
    cases other with
    | binding =>
      obtain ⟨-, rfl, rfl, sameValue⟩ := Stmt.binding.inj same
      rw [Stmt.alike, alike _ sameValue (Bool.and_eq_true_iff.mp writable).2, beq_self_eq_true,
        beq_self_eq_true]
      rfl
    | _ => cases same
  assignment _ target value alike other same writable := by
    cases other with
    | assignment =>
      obtain ⟨-, rfl, sameValue⟩ := Stmt.assignment.inj same
      rw [Stmt.alike, alike _ sameValue (Bool.and_eq_true_iff.mp writable).2, beq_self_eq_true]
      rfl
    | _ => cases same
  expression _ value alike other same writable := by
    cases other with
    | expression =>
      rw [Stmt.alike]
      exact alike _ (Stmt.expression.inj same).2 (Expr.writable_true writable)
    | _ => cases same

/-! ## Printing -/

namespace Program

/-- Whether a program can be written. -/
def writable (program : Program) : Bool :=
  Stmt.writableAll program.statements

/-- The levels of nesting in the text of a program. -/
def levels (program : Program) : Nat :=
  Stmt.levelsAll program.statements

/-- The text of a program. -/
def print (program : Program) : Text :=
  Page.render ⟨0, true⟩ (joined .itemSeparator (Stmt.words program.statements))

/-- The text of a program is read as its statements, unless it is nested too deeply. -/
theorem ofSource_print_cases
    {program : Program}
    (writable : program.writable = true)
    (file : Option Text) :
    (∃ read, Program.ofSource file program.print = .ok read ∧
      Stmt.bareAll read.statements = Stmt.bareAll program.statements) ∨
    nestingRoom < program.levels ∧
      ∃ fault, Program.ofSource file program.print = .error (.fault fault) ∧
        Reading.TooDeep fault := by
  by_cases nonempty : program.statements = []
  · have isEmpty : program.print = [] := by
      rw [print, nonempty]
      rfl
    rw [isEmpty, nonempty]
    exact .inl ⟨_, rfl, rfl⟩
  have derived := Stmt.statements_derived (fun stmt _ => treeSteps_derived.stmt stmt) writable
    (Nat.le_refl _) nonempty
  have atLine : Pen.AtLine ⟨.start, [], 0⟩ := rfl
  obtain ⟨last, ends, writes, -, -⟩ :=
    Pen.WritesOperand.joined_item (Stmt.words_ne_nil nonempty)
      (Stmt.words_written (fun stmt _ => treeSteps_written.stmt stmt) writable) atLine nofun
  obtain ⟨tokens, indents, reader, out, state, stack, passage, run, isStack, word⟩ :=
    writes.exists_run file
  rw [← word] at derived
  exact ofSource_of_run passage run isStack derived

/-- The text of a program is read as this program, if its nesting stays within the limit; and
nothing but this limit makes the reading fail. -/
theorem ofSource_print
    {program : Program}
    (writable : program.writable = true)
    (file : Option Text) :
    (program.levels ≤ nestingRoom →
      ∃ read, Program.ofSource file program.print = .ok read ∧ read.alike program = true) ∧
    ∀ failure, Program.ofSource file program.print = .error failure →
      ∃ fault, failure = .fault fault ∧ Reading.TooDeep fault := by
  rcases ofSource_print_cases writable file with
    ⟨read, isRead, same⟩ | ⟨tooDeep, fault, failed, isTooDeep⟩
  · refine ⟨fun _ => ⟨read, isRead, ?_⟩, fun failure failed => ?_⟩
    · exact Stmt.alikeAll_of_bare (fun stmt _ => treeSteps_alike.stmt stmt) same writable
    · cases isRead.symm.trans failed
  · refine ⟨fun shallow => absurd tooDeep (Nat.not_lt.mpr shallow), fun failure alsoFailed => ?_⟩
    cases failed.symm.trans alsoFailed
    exact ⟨fault, rfl, isTooDeep⟩

/-- A program with blocks inside brackets, negative numbers, a call without arguments, and a name
and a string as keys. -/
def nestedBlocks : Program :=
  let here := Span.nowhere
  let name (text : Text) := Expr.identifier here text
  let sum := Expr.binary here (name "y") (.mark .plus) (name "x")
  let step := Expr.function here [] (.block here
    [.assignment here "y" (.binary here sum (.mark .star) (.int here (-2))),
     .expression here (.call here (name "tick") [])])
  let steps := Expr.array here [step, .int here (-1)]
  let keys := Expr.map here [.pair here (name "k") (name "y"), .pair here (.string here "k") step]
  ⟨here,
    [.binding here false "f" (.function here ["x"] (.block here
       [.binding here true "y" (.index here steps (name "x")), .expression here keys])),
     .expression here (.call here (name "f") [.int here (-1)])]⟩

theorem ofSource_print_nestedBlocks :
    nestedBlocks.writable = true ∧ nestedBlocks.levels ≤ nestingRoom ∧
      ∃ read, Program.ofSource none nestedBlocks.print = .ok read ∧
        read.alike nestedBlocks = true :=
  ⟨by decide +kernel, by decide +kernel,
    (ofSource_print (by decide +kernel) none).1 (by decide +kernel)⟩

end Program

end Offside
