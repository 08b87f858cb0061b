import Offside.Proofs.Programs.Concatenation

namespace Offside

/-!
# Trees that come from a source

In a tree that is read from a source every binary operator is one of the operators that have
a precedence, no function has two parameters of one name, and no set, map or block is empty.
-/

variable {file : Option Text} {source : Text}

mutual

/-- Whether an expression could be read from a source, as far as its operators, parameters,
sets, maps and blocks go. -/
def Expr.Regular : Expr → Prop
  | .int _ _ | .float _ _ | .string _ _ | .char _ _ | .bool _ _ | .identifier _ _ => True
  | .array _ elements => Expr.RegularAll elements
  | .set _ elements => elements ≠ [] ∧ Expr.RegularAll elements
  | .map _ entries => entries ≠ [] ∧ Entry.RegularAll entries
  | .binary _ left operator right =>
    left.Regular ∧ operator.precedence?.isSome = true ∧ right.Regular
  | .function _ parameters body => parameters.Nodup ∧ body.Regular
  | .call _ callee arguments => callee.Regular ∧ Expr.RegularAll arguments
  | .index _ target key => target.Regular ∧ key.Regular
  | .block _ statements => statements ≠ [] ∧ Stmt.RegularAll statements

def Expr.RegularAll : List Expr → Prop
  | [] => True
  | expr :: exprs => expr.Regular ∧ Expr.RegularAll exprs

def Entry.Regular : Entry → Prop
  | .pair _ key value => key.Regular ∧ value.Regular

def Entry.RegularAll : List Entry → Prop
  | [] => True
  | entry :: entries => entry.Regular ∧ Entry.RegularAll entries

def Stmt.Regular : Stmt → Prop
  | .binding _ _ _ value | .assignment _ _ value | .expression _ value => value.Regular

def Stmt.RegularAll : List Stmt → Prop
  | [] => True
  | stmt :: stmts => stmt.Regular ∧ Stmt.RegularAll stmts

end

/-- Expressions are regular together if each of them is; the same goes for entries and
statements. -/
theorem Expr.regularAll_iff {exprs : List Expr} :
    Expr.RegularAll exprs ↔ ∀ expr ∈ exprs, expr.Regular := by
  induction exprs with
  | nil => simp [Expr.RegularAll]
  | cons expr exprs hypothesis => simp [Expr.RegularAll, hypothesis]

theorem Entry.regularAll_iff {entries : List Entry} :
    Entry.RegularAll entries ↔ ∀ entry ∈ entries, entry.Regular := by
  induction entries with
  | nil => simp [Entry.RegularAll]
  | cons entry entries hypothesis => simp [Entry.RegularAll, hypothesis]

theorem Stmt.regularAll_iff {stmts : List Stmt} :
    Stmt.RegularAll stmts ↔ ∀ stmt ∈ stmts, stmt.Regular := by
  induction stmts with
  | nil => simp [Stmt.RegularAll]
  | cons stmt stmts hypothesis => simp [Stmt.RegularAll, hypothesis]

/-! ## Spans do not matter -/

/-- Forgetting spans leaves as many expressions as there are. -/
theorem Expr.bareAll_eq_nil (exprs : List Expr) : Expr.bareAll exprs = [] ↔ exprs = [] := by
  cases exprs <;> simp [Expr.bareAll]

theorem Entry.bareAll_eq_nil (entries : List Entry) :
    Entry.bareAll entries = [] ↔ entries = [] := by
  cases entries <;> simp [Entry.bareAll]

theorem Stmt.bareAll_eq_nil (stmts : List Stmt) : Stmt.bareAll stmts = [] ↔ stmts = [] := by
  cases stmts <;> simp [Stmt.bareAll]

mutual

/-- Whether a tree is regular does not depend on its spans. -/
theorem Expr.regular_bare : ∀ root : Expr, root.bare.Regular ↔ root.Regular
  | .int _ _ | .float _ _ | .string _ _ | .char _ _ | .bool _ _ | .identifier _ _ => .rfl
  | .array _ elements => Expr.regularAll_bareAll elements
  | .set _ elements =>
    and_congr (not_congr (Expr.bareAll_eq_nil elements)) (Expr.regularAll_bareAll elements)
  | .map _ entries =>
    and_congr (not_congr (Entry.bareAll_eq_nil entries)) (Entry.regularAll_bareAll entries)
  | .binary _ left _ right =>
    and_congr left.regular_bare (and_congr .rfl right.regular_bare)
  | .function _ _ body => and_congr .rfl body.regular_bare
  | .call _ callee arguments =>
    and_congr callee.regular_bare (Expr.regularAll_bareAll arguments)
  | .index _ target key => and_congr target.regular_bare key.regular_bare
  | .block _ statements =>
    and_congr (not_congr (Stmt.bareAll_eq_nil statements))
      (Stmt.regularAll_bareAll statements)

theorem Expr.regularAll_bareAll :
    ∀ roots : List Expr, Expr.RegularAll (Expr.bareAll roots) ↔ Expr.RegularAll roots
  | [] => .rfl
  | root :: roots => and_congr root.regular_bare (Expr.regularAll_bareAll roots)

theorem Entry.regular_bare : ∀ root : Entry, root.bare.Regular ↔ root.Regular
  | .pair _ key value => and_congr key.regular_bare value.regular_bare

theorem Entry.regularAll_bareAll :
    ∀ roots : List Entry, Entry.RegularAll (Entry.bareAll roots) ↔ Entry.RegularAll roots
  | [] => .rfl
  | root :: roots => and_congr root.regular_bare (Entry.regularAll_bareAll roots)

theorem Stmt.regular_bare : ∀ root : Stmt, root.bare.Regular ↔ root.Regular
  | .binding _ _ _ value | .assignment _ _ value | .expression _ value => value.regular_bare

theorem Stmt.regularAll_bareAll :
    ∀ roots : List Stmt, Stmt.RegularAll (Stmt.bareAll roots) ↔ Stmt.RegularAll roots
  | [] => .rfl
  | root :: roots => and_congr root.regular_bare (Stmt.regularAll_bareAll roots)

end

/-! ## Derived trees -/

namespace Grammar

variable {α : Type} {separator : Mark} {trailing : Bool} {word : Word}
  {item : Word → List α → Prop} {items : List α}

/-- What holds of the items of each part holds of all items of a series. -/
theorem Rest.forall_mem
    {holds : α → Prop}
    (rest : Rest separator trailing item word items)
    (each : ∀ word items, item word items → ∀ one ∈ items, holds one) :
    ∀ one ∈ items, holds one := by
  induction rest with
  | done | trailing => simp
  | more first _ hypothesis =>
    intro one member
    rcases List.mem_append.mp member with here | later
    · exact each _ _ first one here
    · exact hypothesis one later

/-- What holds of the items of a series one by one holds of all of them. -/
theorem Series.forall_mem
    {holds : α → Prop}
    (series : Series separator trailing item word items)
    (each : ∀ word items, item word items → ∀ one ∈ items, holds one) :
    ∀ one ∈ items, holds one :=
  (Rest.of_series series).forall_mem each

/-- A series of parts that are not empty is not empty. -/
theorem Series.items_ne_nil
    (series : Series separator trailing item word items)
    (each : ∀ word items, item word items → items ≠ []) :
    items ≠ [] := by
  cases series with
  | intro first _ =>
    intro none
    exact each _ _ first (List.append_eq_nil_iff.mp none).1

section

variable {inner : Phrase → Word → Expr → Prop} {word : Word} {expr : Expr} {stmts : List Stmt}
  (inside : ∀ form word expr, inner form word expr → expr.Regular)

include inside

/-- Trees of the grammar are regular.  Of the atoms, sets and maps are not empty. -/
theorem Atom.regular (atom : Atom inner word expr) : expr.Regular := by
  have elements (word : Word) (items : List Expr) (element : Element inner word items) :
      ∀ item ∈ items, item.Regular := by
    obtain ⟨derived⟩ := element
    intro item member
    cases List.mem_singleton.mp member
    exact inside _ _ _ derived
  cases atom with
  | @leaf symbol _ isLeaf =>
    cases symbol with
    | mark => cases isLeaf
    | _ =>
      cases isLeaf
      exact trivial
  | group derived => exact inside _ _ _ derived
  | emptyArray => exact trivial
  | array series => exact Expr.regularAll_iff.mpr (series.forall_mem elements)
  | set series =>
    refine ⟨series.items_ne_nil ?_, Expr.regularAll_iff.mpr (series.forall_mem elements)⟩
    rintro _ _ ⟨_⟩
    exact List.cons_ne_nil _ _
  | map series =>
    refine ⟨series.items_ne_nil ?_, Entry.regularAll_iff.mpr (series.forall_mem ?_)⟩
    · rintro _ _ ⟨_⟩ <;> exact List.cons_ne_nil _ _
    rintro _ _ derived entry member
    cases derived with
    | named value =>
      cases List.mem_singleton.mp member
      exact ⟨trivial, inside _ _ _ value⟩
    | keyed _ key value =>
      cases List.mem_singleton.mp member
      exact ⟨inside _ _ _ key, inside _ _ _ value⟩

/-- An index adds a regular key to a regular target. -/
theorem Indexed.regular (indexed : Indexed inner word expr) : expr.Regular := by
  cases indexed with
  | intro atom indices =>
    have target := atom.regular inside
    clear atom
    induction indices with
    | done => exact target
    | more key _ hypothesis =>
      exact hypothesis ⟨target, inside _ _ _ key⟩

/-- So do arguments to a callee. -/
theorem Application.regular (application : Application inner word expr) : expr.Regular := by
  cases application with
  | alone indexed => exact indexed.regular inside
  | emptyCall indexed => exact ⟨indexed.regular inside, trivial⟩
  | call indexed arguments nonempty =>
    refine ⟨indexed.regular inside, ?_⟩
    clear indexed nonempty
    induction arguments with
    | done => exact trivial
    | more argument _ hypothesis =>
      exact ⟨argument.regular inside, hypothesis⟩

/-- The operators of the grammar have a precedence, and their operands are regular. -/
theorem Operand.regular {least : Nat} (operand : Operand inner least word expr) : expr.Regular := by
  cases operand with
  | intro application operators =>
    have left := application.regular inside
    clear application
    induction operators with
    | done => exact left
    | more precedence _ right _ _ hypothesis =>
      refine hypothesis ⟨left, ?_, inside _ _ _ right⟩
      rw [precedence]
      rfl

/-- The parameters of a function are distinct. -/
theorem Expression.regular (expression : Expression inner word expr) : expr.Regular := by
  cases expression with
  | operand operand => exact operand.regular inside
  | function distinct body => exact ⟨distinct, inside _ _ _ body⟩

/-- What a binding binds is regular, also as a function of its parameters. -/
theorem Binding.regular (binding : Binding inner word stmts) : ∀ stmt ∈ stmts, stmt.Regular := by
  intro stmt member
  cases binding with
  | @intro _ parameters _ _ distinct body =>
    cases List.mem_singleton.mp member
    have bodyRegular := inside _ _ _ body
    show (bindingValue parameters _).Regular
    unfold bindingValue
    split
    · exact bodyRegular
    · exact ⟨distinct, bodyRegular⟩

/-- Each statement is regular, also in a group of bindings. -/
theorem Statement.regular (statement : Statement inner word stmts) :
    ∀ stmt ∈ stmts, stmt.Regular := by
  cases statement with
  | binding binding => exact binding.regular inside
  | bindings series => exact series.forall_mem fun _ _ binding => binding.regular inside
  | mutable body | assignment body =>
    intro stmt member
    cases List.mem_singleton.mp member
    exact inside _ _ _ body
  | expression expression =>
    intro stmt member
    cases List.mem_singleton.mp member
    exact expression.regular inside

theorem Statements.regular (statements : Statements inner word stmts) :
    Stmt.RegularAll stmts :=
  Stmt.regularAll_iff.mpr <|
    Series.forall_mem statements fun _ _ statement => statement.regular inside

/-- A program is regular, also when it is empty. -/
theorem ProgramOf.regular (program : ProgramOf inner word stmts) : Stmt.RegularAll stmts := by
  cases program with
  | empty => exact trivial
  | statements statements => exact Statements.regular inside statements

omit inside

/-- A statement is at least one. -/
theorem Statement.stmts_ne_nil (statement : Statement inner word stmts) : stmts ≠ [] := by
  cases statement with
  | binding binding =>
    cases binding
    simp
  | bindings series =>
    obtain ⟨⟨_, _⟩, _⟩ := series
    simp
  | mutable | assignment | expression => simp

/-- A block or a program with a word has statements. -/
theorem Statements.stmts_ne_nil (statements : Statements inner word stmts) : stmts ≠ [] :=
  Series.items_ne_nil statements fun _ _ statement => statement.stmts_ne_nil

end

/-- A phrase of any depth is regular. -/
theorem Within.regular
    {room : Nat} {form : Phrase} {word : Word} {expr : Expr}
    (derived : Within room form word expr) :
    expr.Regular := by
  induction room using Nat.strongRecOn generalizing form word expr with
  | _ room hypothesis =>
    obtain ⟨fits, phrase⟩ := within_iff.mp derived
    have inside : ∀ inner word expr, Within (room - form.levels) inner word expr → expr.Regular :=
      fun _ _ _ => hypothesis _ (Phrase.sub_levels_lt fits)
    cases phrase with
    | block statements =>
      exact ⟨Statements.stmts_ne_nil statements, Statements.regular inside statements⟩
    | body expression | expression expression => exact expression.regular inside
    | operand operand => exact operand.regular inside

end Grammar

/-! ## Trees that are read -/

open Grammar

namespace Reading

/-- One statement is read as the grammar derives it. -/
theorem single_takes
    {steps : Nat} {before : Word}
    (place : Place steps before)
    (loose : Loose before) :
    Gives (single steps) before
      (fun _ all => ∃ word, Statement (Within nestingRoom) word (Stmt.bareAll all))
      fun _ => True := by
  obtain ⟨terminal, rest, rfl⟩ := place.exists_cons
  refine .bind (.atMark Mark.noConfusion) ?_
  rintro _ found ⟨rfl, _⟩
  split
  · exact .expected fun _ => trivial
  · refine .bind (statement_takes (phrase_sound steps nestingRoom) place loose) ?_
    rintro after all ⟨word, _, ended, derived⟩
    obtain ⟨next, others, rfl⟩ := List.exists_cons_of_ne_nil ended.ne_nil
    refine .bind (.atMark Mark.noConfusion) ?_
    rintro _ found ⟨rfl, _⟩
    split
    · exact .pure ⟨word, derived⟩
    · exact .expected fun _ => trivial

end Reading

/-- One statement that is read is derived within the nesting room. -/
theorem Stmt.derived_of_ofTokens
    {tokens : List Token} {statements : List Stmt}
    (endsOnce : EndsOnce tokens)
    (read : Stmt.ofTokens tokens = .ok statements) :
    ∃ word, Statement (Within nestingRoom) word (Stmt.bareAll statements) := by
  have place := endsOnce.place
  have nonempty : tokens ≠ [] := by
    rintro rfl
    exact place.ended.ne_nil rfl
  obtain ⟨token, rest, rfl⟩ := List.exists_cons_of_ne_nil nonempty
  have takes := Reading.single_takes place (Reading.loose_terminals _) ⟨none, token, rest⟩ rfl
  have runs : Stmt.ofTokens (token :: rest) =
      (Reading.single (token :: rest).length ⟨none, token, rest⟩).map Prod.fst := by
    show (Reading.single (token :: rest).length ⟨none, token, rest⟩ >>= fun pair =>
      pure pair.1) = _
    cases Reading.single (token :: rest).length ⟨none, token, rest⟩ <;> rfl
  rw [runs] at read
  cases result : Reading.single (token :: rest).length ⟨none, token, rest⟩ with
  | error => rw [result] at read; cases read
  | ok pair =>
    rw [result] at read takes
    cases read
    exact takes

/-- What is laid out ends in the only end of input. -/
theorem endsOnce_of_layoutTokens
    {tokens : List Token}
    (laidOut : layoutTokens file source = .ok tokens) :
    EndsOnce tokens := by
  obtain ⟨_, _, _, _, _, _, _, run, isEnd, rfl⟩ := exists_run_of_layoutTokens laidOut
  exact endsOnce_of_run run isEnd _

/-- The statements of a program that is read from a source are regular. -/
theorem Program.regular_of_ofSource
    {program : Program}
    (read : Program.ofSource file source = .ok program) :
    Stmt.RegularAll program.statements := by
  obtain ⟨tokens, laidOut, readTokens⟩ := Program.exists_tokens_of_ofSource read
  have derived := Program.derived_of_ofTokens (endsOnce_of_layoutTokens laidOut) readTokens
  exact (Stmt.regularAll_bareAll _).mp (derived.regular fun _ _ _ => Within.regular)

/-- The one statement that is read from a source is regular, and it is at least one. -/
theorem Stmt.regular_of_ofSource
    {statements : List Stmt}
    (read : Stmt.ofSource file source = .ok statements) :
    Stmt.RegularAll statements ∧ statements ≠ [] := by
  unfold Stmt.ofSource at read
  cases laidOut : layoutTokens file source with
  | error => rw [laidOut] at read; cases read
  | ok tokens =>
    rw [laidOut] at read
    have lifted : Failure.lift (Stmt.ofTokens tokens) = .ok statements := read
    cases result : Stmt.ofTokens tokens with
    | error => rw [result] at lifted; cases lifted
    | ok =>
      rw [result] at lifted
      cases lifted
      obtain ⟨word, derived⟩ :=
        Stmt.derived_of_ofTokens (endsOnce_of_layoutTokens laidOut) result
      have regular := derived.regular fun _ _ _ => Within.regular
      rw [← Stmt.regularAll_bareAll]
      exact ⟨Stmt.regularAll_iff.mpr regular, fun none =>
        derived.stmts_ne_nil ((Stmt.bareAll_eq_nil _).mpr none)⟩

end Offside
