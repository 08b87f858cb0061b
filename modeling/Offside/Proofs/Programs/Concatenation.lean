import Offside.Proofs.Programs.Reading
import Offside.Proofs.Syntax.Acceptance
import Offside.Proofs.Tokens.Joined

namespace Offside

/-!
# Programs one after another

Two programs whose first tokens stand in the same column make a program when they are joined
by a line feed.  The brackets of a program are balanced, so at the end of the first only
blocks are open, and the first line of the second closes all of them and starts an item.
-/

open Grammar Layout TokenStream

/-! ## Balanced brackets -/

variable {inner : Phrase → Word → Expr → Prop} {other : Text} {others : List Stmt}

/-- A word closes the brackets that it opens, and no others. -/
def Balanced (word : Word) : Prop :=
  ∀ depth, (word.map (·.toSymbol)).foldlM depthAfter depth = some depth

namespace Balanced

variable {word rest : Word}

theorem nil : Balanced [] :=
  fun _ => rfl

theorem append (first : Balanced word) (second : Balanced rest) : Balanced (word ++ rest) := by
  intro depth
  rw [List.map_append, List.foldlM_append, first depth]
  exact second depth

/-- A terminal that is no bracket. -/
theorem cons
    {terminal : Terminal}
    (noBracket : ∀ depth, depthAfter depth terminal.toSymbol = some depth)
    (balanced : Balanced rest) :
    Balanced (terminal :: rest) := by
  intro depth
  rw [List.map_cons, List.foldlM_cons, noBracket depth]
  exact balanced depth

theorem enclosed
    {opening closing : Terminal}
    (opens : ∀ depth, depthAfter depth opening.toSymbol = some (depth + 1))
    (closes : ∀ depth, depthAfter (depth + 1) closing.toSymbol = some depth)
    (balanced : Balanced word) :
    Balanced (opening :: (word ++ [closing])) := by
  intro depth
  rw [List.map_cons, List.foldlM_cons, opens depth, List.map_append, Option.bind_eq_bind,
    Option.bind_some, List.foldlM_append, balanced (depth + 1)]
  exact (bind_pure (depthAfter (depth + 1) closing.toSymbol)).trans (closes depth)

theorem names (parameters : List Text) : Balanced (parameters.map .name) := by
  induction parameters with
  | nil => exact nil
  | cons _ _ hypothesis => exact cons (fun _ => rfl) hypothesis

end Balanced

/-- The brackets of a derived word are balanced. -/
theorem Grammar.Derives.balanced {kind : Nonterminal} {word : Word} (derives : Derives kind word) :
    Balanced word := by
  have mark {mark : Mark} (noBracket : ∀ depth, depthAfter depth (.mark mark) = some depth) :
      Balanced [.mark mark] := .cons noBracket .nil
  induction derives with
  | emptyProgram => exact mark fun _ => rfl
  | program _ statements => exact statements.append (mark fun _ => rfl)
  | lastStatement _ balanced
  | letStatement _ balanced
  | varStatement _ balanced
  | assignmentStatement _ balanced
  | exprStatement _ balanced
  | lastBinding _ balanced
  | blockBody _ balanced
  | exprBody _ balanced
  | lambdaExpr _ balanced
  | binaryExpr _ balanced
  | lastOperand _ balanced
  | atom _ balanced
  | lastElement _ balanced
  | lastEntry _ balanced => exact balanced
  | moreStatements _ _ first others
  | moreBindings _ _ first others
  | moreElements _ _ first others
  | moreEntries _ _ first others
  | keyedEntry _ _ first others => exact first.append (.cons (fun _ => rfl) others)
  | letOne _ balanced => exact .cons (fun _ => rfl) balanced
  | letGroup _ balanced =>
    exact .cons (fun _ => rfl) (.cons (fun _ => rfl) (balanced.append (mark fun _ => rfl)))
  | @binding _ parameters _ _ _ body =>
    exact .cons (fun _ => rfl) ((Balanced.names parameters).append (.cons (fun _ => rfl) body))
  | mutable _ body =>
    exact .cons (fun _ => rfl) (.cons (fun _ => rfl) (.cons (fun _ => rfl) body))
  | assignment _ body => exact .cons (fun _ => rfl) (.cons (fun _ => rfl) body)
  | block _ balanced => exact .cons (fun _ => rfl) (balanced.append (mark fun _ => rfl))
  | @lambda parameters _ _ _ body =>
    exact .cons (fun _ => rfl) ((Balanced.names parameters).append (.cons (fun _ => rfl) body))
  | @operator _ _ operator _ isOperator _ first others =>
    refine first.append (.cons (fun _ => ?_) others)
    cases operator <;> first | rfl | cases isOperator
  | emptyCall _ balanced =>
    exact balanced.append (Balanced.nil.enclosed (fun _ => rfl) (fun _ => rfl))
  | application _ _ first others
  | argument _ _ first others => exact first.append others
  | noArgument => exact .nil
  | index _ _ first key =>
    exact first.append (key.enclosed (fun _ => rfl) (fun _ => rfl))
  | @literal symbol isLiteral =>
    refine .cons (fun _ => ?_) .nil
    cases symbol <;> first | rfl | cases isLiteral
  | name => exact .cons (fun _ => rfl) .nil
  | emptyArray => exact Balanced.nil.enclosed (fun _ => rfl) (fun _ => rfl)
  | group _ balanced
  | array _ balanced
  | set _ balanced
  | map _ balanced => exact balanced.enclosed (fun _ => rfl) (fun _ => rfl)
  | trailingElement _ balanced
  | trailingEntry _ balanced => exact balanced.append (mark fun _ => rfl)
  | namedEntry _ balanced => exact .cons (fun _ => rfl) (.cons (fun _ => rfl) balanced)

/-! ## Closing what is open -/

namespace Layout

theorem dedent_program
    {program : Nat} {inner : List Context}
    (indented : Stack.Indented ⟨program, inner⟩)
    (noBracket : Stack.brackets ⟨program, inner⟩ = 0) :
    dedent program program inner = some (closeAll inner ++ [.itemSeparator], []) := by
  induction inner with
  | nil => simp [dedent, closeAll]
  | cons context outer hypothesis =>
    cases context with
    | bracket => simp [Stack.brackets] at noBracket
    | block column =>
      have later := hypothesis
        (fun other member => indented other (List.mem_cons_of_mem _ member))
        (by simpa [Stack.brackets] using noBracket)
      rw [dedent, if_pos (indented column List.mem_cons_self), later]
      rfl

/-- At the column of the program, where only blocks are open, a line closes them all and starts
an item of the program. -/
theorem startLine_program
    {stack : Stack}
    (indented : stack.Indented)
    (noBracket : stack.brackets = 0)
    {token : Token}
    (noComma : token.isMark .comma = false)
    (previous : Option Symbol) :
    startLine stack previous stack.program token =
      some (closeAll stack.inner ++ [.itemSeparator], ⟨stack.program, []⟩) := by
  have notRight : ¬ stack.innermost < stack.program := Nat.not_lt.mpr indented.le_innermost
  have top : ∃ column, stack.topColumn? = some column ∧ ¬ column < stack.program := by
    obtain ⟨program, inner⟩ := stack
    match inner with
    | [] => exact ⟨program, rfl, Nat.lt_irrefl _⟩
    | .block column :: _ =>
      exact ⟨column, rfl, Nat.not_lt.mpr (Nat.le_of_lt (indented column List.mem_cons_self))⟩
    | .bracket :: _ => simp [Stack.brackets] at noBracket
  obtain ⟨column, isTop, notLeft⟩ := top
  simp [startLine, notRight, isTop, noComma, notLeft, dedent_program indented noBracket]

theorem marksAt_down (token : Token) (marks : List Mark) (lines codes : Nat) :
    (marksAt token marks).map (·.down lines codes) = marksAt (token.down lines codes) marks := by
  simp [marksAt, Token.down, Span.down, Span.atStart]

theorem passBracket_down (stack : Stack) (token : Token) (lines codes : Nat) :
    passBracket stack (token.down lines codes) = passBracket stack token :=
  rfl

/-- Where a source stands in a text does not matter to its layout. -/
theorem Run.down
    {state last : State} {tokens out : List Token}
    (run : Run [] state tokens out last)
    (lines codes : Nat) :
    Run [] state (tokens.map (·.down lines codes)) (out.map (·.down lines codes)) last := by
  induction run with
  | done => exact .done
  | newline isNewline _ hypothesis => exact .newline isNewline hypothesis
  | token noNewline noEnd arrives _ hypothesis =>
    rw [List.map_append, List.map_append, marksAt_down, marksAt_down, List.map_cons,
      List.map_cons, ← passBracket_down _ _ lines codes]
    exact .token noNewline noEnd arrives hypothesis

end Layout

namespace TokenStream.Passage

variable {file : Option Text} {reader last : Reader} {text rest : Text} {tokens out : List Token}
  {indents : List (Nat × Nat)} {state final : State}

/-- Behind the tokens of a passage, the layout starts a line if the reader does. -/
theorem atLineStart
    (passage : Passage file reader text tokens indents last rest)
    (run : Run [] state tokens out final)
    (starts : state.stack ≠ none → state.atLineStart = !reader.inLine) :
    final.stack ≠ none → final.atLineStart = !last.inLine := by
  induction passage generalizing state out with
  | done =>
    cases run
    exact starts
  | lineEnd _ hypothesis =>
    cases run with
    | newline _ later => exact hypothesis later fun _ => rfl
    | token noNewline => exact (noNewline rfl).elim
  | emptyLine _ hypothesis => exact hypothesis run starts
  | blank _ _ hypothesis => exact hypothesis run starts
  | comment _ _ _ hypothesis => exact hypothesis run starts
  | @token start _ _ first tail _ _ _ _ _ _ scanned _ hypothesis =>
    have visible := Token.isVisible_iff.mp
      (pieceToken_isVisible file scanned (first :: tail) start)
    cases run with
    | newline isNewline => exact (visible.1 isNewline).elim
    | token _ _ _ later => exact hypothesis later fun _ => rfl

/-- The first token of a source is no newline. -/
theorem first_visible
    (passage : Passage file reader text tokens indents last rest)
    (starts : reader.inLine = false) :
    ∀ token ∈ tokens.head?, token.isVisible = true := by
  induction passage with
  | done => simp
  | lineEnd => cases starts
  | emptyLine _ hypothesis => exact hypothesis starts
  | blank _ _ hypothesis => exact hypothesis starts
  | comment _ _ _ hypothesis => exact hypothesis starts
  | @token start _ _ first tail _ _ _ _ _ _ scanned =>
    rintro _ ⟨⟩
    exact pieceToken_isVisible file scanned (first :: tail) start

end TokenStream.Passage

/-! ## What a source consists of -/

variable {file : Option Text} {source : Text} {stmts : List Stmt} {word : Word}

theorem terminalsAfter_down (before : Option Token) (tokens : List Token) (lines codes : Nat) :
    terminalsAfter (before.map (·.down lines codes)) (tokens.map (·.down lines codes)) =
      terminalsAfter before tokens := by
  induction tokens generalizing before with
  | nil => rfl
  | cons token tokens hypothesis =>
    have same : Terminal.ofToken (before.map (·.down lines codes)) (token.down lines codes) =
        .ofToken before token := by
      cases before with
      | none => rfl
      | some last =>
        simp [Terminal.ofToken, Token.down, Span.down, Position.down, Token.isMark]
    rw [List.map_cons, terminalsAfter, same, terminalsAfter, ← hypothesis]
    rfl

/-- How a source is read as a non-empty program: its first token and the others, what the
layout puts out for them and the blocks it leaves open, and the statements. -/
structure Anatomy (file : Option Text) (source : Text) (stmts : List Stmt) where
  first : Token
  rest : List Token
  indents : List (Nat × Nat)
  last : Reader
  out : List Token
  state : State
  stack : Stack
  passage : Passage file .initial source (first :: rest) indents last []
  visible : first.isVisible = true
  noComma : first.isMark .comma = false
  run : Run [] ⟨some (passBracket ⟨first.span.start.column, []⟩ first).2, some first.symbol,
    false⟩ rest out state
  isStack : state.stack = some stack
  program : stack.program = first.span.start.column
  indented : stack.Indented
  noBracket : stack.brackets = 0
  atLineStart : state.atLineStart = !last.inLine
  derived : Statements (Within nestingRoom)
    (terminals (first :: out) ++ (closeAll stack.inner).map .mark) stmts

/-- Without contexts a token brings no marks. -/
theorem passBracket_nil (program : Nat) (token : Token) :
    (passBracket ⟨program, []⟩ token).1 = [] := by
  unfold passBracket
  split
  · split
    · rfl
    · split <;> rfl
  · rfl

theorem symbol_terminalsAfter (before : Option Token) (tokens : List Token) :
    (terminalsAfter before tokens).map (·.toSymbol) = tokens.map (·.symbol) := by
  induction tokens generalizing before with
  | nil => rfl
  | cons token tokens hypothesis =>
    rw [terminalsAfter, List.map_cons, List.map_cons, Terminal.ofToken_toSymbol,
      hypothesis]

theorem Grammar.Statement.head?_ne_comma
    (statement : Statement inner word stmts) :
    word.head? ≠ some (.mark .comma) := by
  cases statement with
  | expression expression =>
    obtain ⟨terminal, rest, rfl, opens⟩ := expression.starts
    rintro ⟨⟩
    cases opens
  | binding
  | bindings
  | mutable
  | assignment => exact nofun

theorem Grammar.Statements.head?_ne_comma
    (statements : Statements inner word stmts) :
    word.head? ≠ some (.mark .comma) := by
  cases statements with
  | intro statement _ =>
    obtain ⟨terminal, rest, rfl⟩ := List.exists_cons_of_ne_nil statement.ne_nil
    exact statement.head?_ne_comma

/-- A source that is read was laid out, and the tokens were read. -/
theorem Program.exists_tokens_of_ofSource
    {program : Program}
    (read : Program.ofSource file source = .ok program) :
    ∃ tokens, layoutTokens file source = .ok tokens ∧ Program.ofTokens tokens = .ok program := by
  unfold Program.ofSource at read
  cases laidOut : layoutTokens file source with
  | error => rw [laidOut] at read; cases read
  | ok tokens =>
    rw [laidOut] at read
    refine ⟨tokens, rfl, ?_⟩
    have lifted : Failure.lift (Program.ofTokens tokens) = .ok program := read
    cases result : Program.ofTokens tokens with
    | error => rw [result] at lifted; cases lifted
    | ok => rw [result] at lifted; cases lifted; rfl

/-- What is laid out was passed and run through; at the end every open block is closed. -/
theorem exists_run_of_layoutTokens
    {result : List Token}
    (laidOut : layoutTokens file source = .ok result) :
    ∃ tokens indents last out state final, Passage file .initial source tokens indents last [] ∧
      Run [] .initial tokens out state ∧ final.symbol = .mark .endOfInput ∧
      result = out ++
        (marksAt final (closeAll ((state.stack.map (·.inner)).getD [])) ++ [final]) := by
  obtain ⟨tokens, indents, last, passage⟩ :=
    exists_passage_of_tokenize (failure_eq_none_of_layoutTokens laidOut)
  rw [layoutTokens_eq_of_passage passage] at laidOut
  cases resolved : resolve [] (tokens ++ endTokens file last) with
  | error => rw [resolved] at laidOut; cases laidOut
  | ok =>
    rw [resolved] at laidOut
    cases laidOut
    obtain ⟨out, state, run⟩ := exists_run
      (fun _ member => passage.symbol_ne_endOfInput member) resolved
    obtain ⟨final, isEnd, ends⟩ := resolveFrom_endTokens [] state file last
    have whole := run.resolveFrom_eq (endTokens file last)
    rw [ends] at whole
    exact ⟨tokens, indents, last, out, state, final, passage, run, isEnd,
      Except.ok.inj (resolved.symm.trans whole)⟩

/-- A program with statements is derived as statements. -/
theorem Grammar.ProgramOf.statements_of_ne_nil
    (program : ProgramOf inner (word ++ [Terminal.mark .endOfInput]) stmts)
    (nonempty : stmts ≠ []) :
    Statements inner word stmts := by
  generalize whole : word ++ [Terminal.mark .endOfInput] = text at program
  cases program with
  | empty => exact (nonempty rfl).elim
  | statements statements =>
    rw [List.append_cancel_right whole]
    exact statements

/-- Behind a balanced output no bracket is open. -/
theorem brackets_eq_zero
    {state : State} {tokens out : List Token}
    (run : Run [] .initial tokens out state)
    {marks : List Mark}
    (areLayout : ∀ mark ∈ marks, mark.isLayout = true)
    (balanced : Balanced (terminals out ++ marks.map .mark)) :
    state.brackets = 0 := by
  have counts := balanced 0
  have sameMarks : (marks.map Terminal.mark).map (·.toSymbol) = marks.map Symbol.mark := by
    rw [List.map_map]
    rfl
  rw [List.map_append, List.foldlM_append, terminals, symbol_terminalsAfter, sameMarks] at counts
  obtain ⟨depth, isDepth, later⟩ := Option.bind_eq_some_iff.mp counts
  rw [foldlM_depthAfter_layout areLayout] at later
  exact run.brackets (isDepth.trans later)

theorem Program.exists_anatomy
    {program : Program}
    (read : Program.ofSource file source = .ok program)
    (nonempty : program.statements ≠ []) :
    Nonempty (Anatomy file source (Stmt.bareAll program.statements)) := by
  obtain ⟨result, laidOut, read⟩ := Program.exists_tokens_of_ofSource read
  obtain ⟨tokens, indents, last, out, state, final, passage, run, isEnd, rfl⟩ :=
    exists_run_of_layoutTokens laidOut
  have derived := Program.derived_of_ofTokens (endsOnce_of_run run isEnd _) read
  rw [terminals_closed out isEnd] at derived
  have bareNonempty : Stmt.bareAll program.statements ≠ [] := by
    cases isProgram : program.statements with
    | nil => exact (nonempty isProgram).elim
    | cons => exact nofun
  have statements := derived.statements_of_ne_nil bareNonempty
  have noBracket := brackets_eq_zero run (fun _ => isLayout_of_mem_closeAll)
    (Statements.derives Within.derives statements).balanced
  have starts := passage.atLineStart run fun none => (none rfl).elim
  have indented := run.indented nofun
  cases run with
  | done => exact (Statements.ne_nil statements rfl).elim
  | newline isNewline =>
    have visible := passage.first_visible rfl _ rfl
    exact ((Token.isVisible_iff.mp visible).1 isNewline).elim
  | @token _ _ first rest out _ _ _ _ arrives run =>
    cases arrives
    obtain ⟨stack, isStack, sameProgram⟩ := run.program rfl
    rw [passBracket_nil, isStack] at statements
    have noComma : first.isMark .comma = false := by
      refine decide_eq_false fun isComma => Statements.head?_ne_comma statements ?_
      show some (Terminal.ofToken none first) = _
      exact congrArg some <| (Terminal.eq_mark_iff Mark.noConfusion).mpr <|
        (Terminal.ofToken_toSymbol ..).trans isComma
    have stackBrackets : stack.brackets = 0 := by
      rw [State.brackets, isStack] at noBracket
      exact noBracket
    exact ⟨{
      first, rest, indents, last, out, state, stack, passage, noComma, run, isStack
      visible := passage.first_visible rfl first rfl
      program := sameProgram.trans (passBracket_spec ..).1
      indented := indented stack isStack
      noBracket := stackBrackets
      atLineStart := starts (isStack ▸ nofun)
      derived := statements }⟩

/-! ## Joining -/

theorem Grammar.Series.append
    {α : Type} {separator : Mark} {item : Word → List α → Prop} {word more : Word}
    {items others : List α}
    (first : Series separator false item word items)
    (second : Series separator false item more others) :
    Series separator false item (word ++ .mark separator :: more) (items ++ others) := by
  cases first with
  | @intro word rest items tail derived further =>
    have longer :
        Rest separator false item (rest ++ .mark separator :: more) (tail ++ others) := by
      clear derived
      induction further with
      | done => exact .of_series second
      | trailing isTrailing => cases isTrailing
      | more derived _ hypothesis =>
        have next := Rest.more derived hypothesis
        simpa using next
    have whole := Series.intro derived longer
    simpa using whole

/-- The column of the first token of a source. -/
def firstColumn? (file : Option Text) (source : Text) : Option Nat :=
  (tokenize file source).tokens.head?.map (·.span.start.column)

namespace Anatomy

variable (anatomy : Anatomy file source stmts) (second : Anatomy file other others)

theorem firstColumn?_eq :
    firstColumn? file source = some anatomy.first.span.start.column := by
  rw [firstColumn?, tokenize_eq_of_passage anatomy.passage]
  rfl

/-- The layout of the whole source up to its end. -/
theorem wholeRun :
    Run [] .initial (anatomy.first :: anatomy.rest) (anatomy.first :: anatomy.out)
      anatomy.state := by
  obtain ⟨noNewline, noEnd⟩ := Token.isVisible_iff.mp anatomy.visible
  have run : Run [] .initial _ _ _ := .token noNewline noEnd rfl anatomy.run
  rwa [passBracket_nil] at run

/-- A line feed behind a source starts a line of the layout. -/
theorem runClosing :
    Run [] anatomy.state (closing file anatomy.last) []
      { anatomy.state with atLineStart := true } := by
  have starts := anatomy.atLineStart
  unfold closing
  cases inLine : anatomy.last.inLine with
  | true => exact .newline rfl .done
  | false =>
    rw [inLine] at starts
    have same : anatomy.state = { anatomy.state with atLineStart := true } := by
      rw [← show anatomy.state.atLineStart = true from starts]
    rw [← same]
    exact .done

/-- The first token of a second source closes the blocks of the first and starts an item. -/
theorem runSecond
    (sameColumn : anatomy.first.span.start.column = second.first.span.start.column)
    (lines codes : Nat) :
    Run [] { anatomy.state with atLineStart := true }
      ((second.first :: second.rest).map (·.down lines codes))
      (marksAt (second.first.down lines codes) (closeAll anatomy.stack.inner ++ [.itemSeparator]) ++
        (second.first :: second.out).map (·.down lines codes)) second.state := by
  obtain ⟨noNewline, noEnd⟩ := Token.isVisible_iff.mp second.visible
  have arrives : arrive [] { anatomy.state with atLineStart := true }
      (second.first.down lines codes) =
        some (closeAll anatomy.stack.inner ++ [.itemSeparator],
          ⟨second.first.span.start.column, []⟩) := by
    have column : indentOf [] (second.first.down lines codes) = anatomy.stack.program :=
      sameColumn.symm.trans anatomy.program.symm
    have noComma : (second.first.down lines codes).isMark .comma = false := second.noComma
    rw [← sameColumn, ← anatomy.program]
    simp only [arrive, anatomy.isStack, if_true, column]
    exact startLine_program anatomy.indented anatomy.noBracket noComma anatomy.state.previous
  have run : Run [] _ (second.first.down lines codes :: _) _ _ :=
    .token noNewline noEnd arrives (second.run.down lines codes)
  rw [passBracket_nil] at run
  simpa [marksAt] using run

/-- The layout of two sources with a line feed between them, up to their end. -/
theorem runJoined
    (sameColumn : anatomy.first.span.start.column = second.first.span.start.column)
    (lines codes : Nat) :
    Run [] .initial
      ((anatomy.first :: anatomy.rest) ++
        (closing file anatomy.last ++ (second.first :: second.rest).map (·.down lines codes)))
      ((anatomy.first :: anatomy.out) ++
        (marksAt (second.first.down lines codes)
            (closeAll anatomy.stack.inner ++ [.itemSeparator]) ++
          (second.first :: second.out).map (·.down lines codes))) second.state :=
  anatomy.wholeRun.append (anatomy.runClosing.append (anatomy.runSecond second sameColumn ..))

/-- The terminals of two sources with a line feed between them. -/
theorem terminals_joined (lines codes : Nat) :
    terminals ((anatomy.first :: anatomy.out) ++
        (marksAt (second.first.down lines codes)
            (closeAll anatomy.stack.inner ++ [.itemSeparator]) ++
          (second.first :: second.out).map (·.down lines codes))) =
      (terminals (anatomy.first :: anatomy.out) ++ (closeAll anatomy.stack.inner).map .mark) ++
        .mark .itemSeparator :: terminals (second.first :: second.out) := by
  have areLayout : ∀ mark ∈ closeAll anatomy.stack.inner ++ [.itemSeparator],
      mark.isLayout = true := by
    intro mark member
    rcases List.mem_append.mp member with inBlocks | isSeparator
    · exact isLayout_of_mem_closeAll inBlocks
    · rw [List.mem_singleton.mp isSeparator]
      rfl
  have alone : terminalsAfter ((marksAt (second.first.down lines codes)
        (closeAll anatomy.stack.inner ++ [.itemSeparator])).getLast?.or
          ((anatomy.first :: anatomy.out).getLast?.or none))
      ((second.first :: second.out).map (·.down lines codes)) =
        terminals (second.first :: second.out) := by
    rw [terminalsAfter_eq_terminals (by simp [marksAt, Symbol.endsOperand, Mark.closesBracket])]
    exact terminalsAfter_down none ..
  rw [terminals, terminalsAfter_append, terminalsAfter_append, terminalsAfter_marksAt areLayout,
    alone]
  simp [terminals]

end Anatomy

/-- Two sources with a line feed between them are the statements of the first, then those of the
second. -/
theorem Program.ofSource_append
    {file : Option Text}
    {first second : Text}
    {firstProgram secondProgram : Program}
    (readFirst : Program.ofSource file first = .ok firstProgram)
    (readSecond : Program.ofSource file second = .ok secondProgram)
    (firstNonempty : firstProgram.statements ≠ [])
    (secondNonempty : secondProgram.statements ≠ [])
    (sameColumn : firstColumn? file first = firstColumn? file second) :
    ∃ program, Program.ofSource file (first ++ .scalar '\n' :: second) = .ok program ∧
      Stmt.bareAll program.statements =
        Stmt.bareAll (firstProgram.statements ++ secondProgram.statements) := by
  obtain ⟨anatomy⟩ := Program.exists_anatomy readFirst firstNonempty
  obtain ⟨other⟩ := Program.exists_anatomy readSecond secondNonempty
  rw [anatomy.firstColumn?_eq, other.firstColumn?_eq] at sameColumn
  obtain ⟨lines, codes, indents, passage⟩ := anatomy.passage.join other.passage
  have run := anatomy.runJoined other (Option.some.inj sameColumn) lines codes
  have derived := Series.append anatomy.derived other.derived
  rw [← List.cons_append, ← List.append_assoc,
    ← anatomy.terminals_joined other lines codes] at derived
  rw [Stmt.bareAll_append]
  rcases Program.ofSource_of_run passage run other.isStack derived with read | ⟨tooDeep, -⟩
  · exact read
  -- Both series are derived within the room there is, so their join needs no more of it.
  · exact (Nat.lt_irrefl _ tooDeep).elim

/-- A source that ends in an open block. -/
def openBlockSource : Text :=
  "let x =\n  let y = 1\n  y"

/-- The line behind an open block closes it. -/
theorem Program.ofSource_append_openBlock :
    ∃ block use program,
      Program.ofSource none openBlockSource = .ok block ∧
        Program.ofSource none "x + 2" = .ok use ∧
          block.statements ≠ [] ∧ use.statements ≠ [] ∧
            firstColumn? none openBlockSource = firstColumn? none "x + 2" ∧
              Program.ofSource none (openBlockSource ++ .scalar '\n' :: "x + 2") = .ok program ∧
                Stmt.bareAll program.statements =
                  Stmt.bareAll (block.statements ++ use.statements) := by
  have reads (source : Text) (isRead : (Program.ofSource none source).toOption.any
      (fun program => !program.statements.isEmpty) = true) :
      ∃ program, Program.ofSource none source = .ok program ∧ program.statements ≠ [] := by
    obtain ⟨program, read, nonempty⟩ := Program.exists_of_any isRead
    exact ⟨program, read, by simpa using nonempty⟩
  obtain ⟨block, readBlock, blockNonempty⟩ := reads openBlockSource (by decide +kernel)
  obtain ⟨use, readUse, useNonempty⟩ := reads "x + 2" (by decide +kernel)
  have sameColumn : firstColumn? none openBlockSource = firstColumn? none "x + 2" := by
    decide +kernel
  obtain ⟨program, read, same⟩ := Program.ofSource_append readBlock readUse blockNonempty
    useNonempty sameColumn
  exact ⟨block, use, program, readBlock, readUse, blockNonempty, useNonempty, sameColumn, read,
    same⟩

end Offside
