import Offside.Proofs.Layout.Run

namespace Offside

/-!
# Dedents

A block opens only right of every block that is open, also of those around a bracket.  So from
the program inwards the blocks stand in ascending columns, and closing contexts keeps them so.

A line that starts left of the innermost block therefore closes exactly the blocks right of its
column that were opened since the nearest bracket.  What is left then says how the line goes on:
a bracket swallows the line start, a block in the column of the line gets its next item, and
any other block refuses the line.
-/

namespace Layout

/-- The column of a context, if it is a block. -/
def Context.column? : Context → Option Nat
  | .block column => some column
  | .bracket => none

namespace Stack

/-- The columns of the blocks, from the program to the innermost one. -/
def columns (stack : Stack) : List Nat :=
  stack.program :: (stack.inner.filterMap Context.column?).reverse

/-- Every block starts right of the blocks around it. -/
def Ascends (stack : Stack) : Prop :=
  stack.columns.Pairwise (· < ·)

instance : DecidablePred Ascends := fun stack =>
  inferInstanceAs (Decidable (stack.columns.Pairwise (· < ·)))

/-- The blocks right of a column that were opened since the nearest bracket, innermost
first. -/
def rightOf (stack : Stack) (column : Nat) : List Context :=
  (stack.inner.takeWhile (· != .bracket)).filter fun context => context.column?.any (column < ·)

variable {program column top : Nat} {inner outer left : List Context} {stack after : Stack}

theorem columns_block :
    columns ⟨program, .block column :: outer⟩ = columns ⟨program, outer⟩ ++ [column] := by
  simp [columns, Context.column?]

theorem columns_bracket :
    columns ⟨program, .bracket :: outer⟩ = columns ⟨program, outer⟩ :=
  rfl

theorem ascends_block :
    Ascends ⟨program, .block column :: outer⟩ ↔
      Ascends ⟨program, outer⟩ ∧ ∀ other ∈ columns ⟨program, outer⟩, other < column := by
  simp [Ascends, columns_block, List.pairwise_append]

/-- Closing innermost contexts keeps the columns of the others. -/
theorem Ascends.of_suffix (ascends : Ascends ⟨program, inner⟩) (remains : left <:+ inner) :
    Ascends ⟨program, left⟩ := by
  have fewer : (columns ⟨program, left⟩).Sublist (columns ⟨program, inner⟩) :=
    ((remains.sublist.filterMap _).reverse).cons_cons program
  exact List.Pairwise.sublist fewer ascends

/-- The innermost block is the one furthest right. -/
theorem Ascends.column_le_innermost (ascends : Ascends ⟨program, inner⟩) :
    ∀ column ∈ columns ⟨program, inner⟩, column ≤ innermost ⟨program, inner⟩ := by
  induction inner with
  | nil =>
    intro column member
    exact Nat.le_of_eq (List.mem_singleton.mp member)
  | cons context outer hypothesis =>
    cases context with
    | bracket =>
      rw [columns_bracket]
      exact hypothesis (ascends.of_suffix (List.suffix_cons ..))
    | block start =>
      intro column member
      rw [columns_block] at member
      rcases List.mem_append.mp member with further | here
      · exact Nat.le_of_lt ((ascends_block.mp ascends).2 column further)
      · exact Nat.le_of_eq (List.mem_singleton.mp here)

/-- A block right of the innermost one is right of all. -/
theorem Ascends.open (ascends : stack.Ascends) (right : stack.innermost < column) :
    Ascends { stack with inner := .block column :: stack.inner } :=
  ascends_block.mpr ⟨ascends, fun other member =>
    Nat.lt_of_le_of_lt (ascends.column_le_innermost other member) right⟩

theorem innermost_of_topColumn? (isTop : stack.topColumn? = some top) : stack.innermost = top := by
  obtain ⟨program, inner⟩ := stack
  cases inner with
  | nil => exact Option.some.inj isTop
  | cons context outer =>
    cases context with
    | block start => exact Option.some.inj isTop
    | bracket => cases isTop

end Stack

/-! ## What line starts and brackets do to the contexts -/

variable {indents : Indents} {program column : Nat} {inner left : List Context}
  {stack after : Stack} {marks : List Mark} {previous : Option Symbol} {token : Token}

theorem Dedents.suffix (dedents : Dedents column program inner marks left) : left <:+ inner := by
  induction dedents with
  | program | bracket | item => exact List.suffix_rfl
  | close _ _ hypothesis => exact hypothesis.trans (List.suffix_cons ..)

theorem suffix_of_closeBracket (closes : closeBracket inner = some (marks, left)) :
    left <:+ inner := by
  induction inner generalizing marks with
  | nil => cases closes
  | cons context outer hypothesis =>
    cases context with
    | bracket =>
      cases closes
      exact List.suffix_cons ..
    | block start =>
      obtain ⟨⟨more, rest⟩, closesOuter, same⟩ := Option.map_eq_some_iff.mp closes
      cases same
      exact (hypothesis closesOuter).trans (List.suffix_cons ..)

theorem ascends_of_startLine
    (ascends : stack.Ascends)
    (starts : startLine stack previous column token = some (marks, after)) :
    after.Ascends := by
  obtain ⟨right, -, rfl⟩ | ⟨-, rfl⟩ | ⟨sameProgram, dedents⟩ := startLine_cases starts
  · exact ascends.open right
  · exact ascends
  · obtain ⟨program, inner⟩ := after
    cases sameProgram
    exact ascends.of_suffix dedents.suffix

theorem ascends_of_passBracket (ascends : stack.Ascends) (token : Token) :
    (passBracket stack token).2.Ascends := by
  unfold passBracket
  split
  · split
    · exact (congrArg (List.Pairwise _) Stack.columns_bracket).mpr ascends
    · split
      · cases closes : closeBracket stack.inner with
        | none => exact ascends
        | some pair => exact ascends.of_suffix (suffix_of_closeBracket closes)
      · exact ascends
  · exact ascends

/-- The blocks of a state stand in ascending columns. -/
def State.Ascends (state : State) : Prop :=
  ∀ stack ∈ state.stack, stack.Ascends

theorem ascends_of_arrive
    {state : State}
    (ascends : state.Ascends)
    (arrives : arrive indents state token = some (marks, stack)) :
    stack.Ascends := by
  obtain ⟨before, previous, atLineStart⟩ := state
  cases before with
  | none =>
    cases arrives
    exact List.pairwise_singleton ..
  | some before =>
    have here : before.Ascends := ascends before rfl
    cases atLineStart with
    | true => exact ascends_of_startLine here arrives
    | false =>
      cases arrives
      exact here

theorem Run.ascends
    {state last : State} {tokens out : List Token}
    (run : Run indents state tokens out last)
    (starts : state.Ascends) :
    last.Ascends := by
  induction run with
  | done => exact starts
  | newline _ _ hypothesis => exact hypothesis starts
  | token _ _ arrives _ hypothesis =>
    refine hypothesis ?_
    rintro _ ⟨⟩
    exact ascends_of_passBracket (ascends_of_arrive starts arrives) _

/-- A stack at some moment of the layout: between two tokens, behind the marks of a line start,
or while contexts are being closed one by one. -/
inductive Visits (indents : Indents) : Stack → Prop where
  | between
      {tokens out : List Token} {state : State} {stack : Stack} :
      Run indents .initial tokens out state →
      state.stack = some stack →
      Visits indents stack
  | arrived
      {tokens out : List Token} {state : State} {token : Token} {marks : List Mark}
      {stack : Stack} :
      Run indents .initial tokens out state →
      arrive indents state token = some (marks, stack) →
      Visits indents stack
  | closing
      {program : Nat} {context : Context} {outer : List Context} :
      Visits indents ⟨program, context :: outer⟩ →
      Visits indents ⟨program, outer⟩

theorem ascends_initial : State.initial.Ascends := by
  intro stack isStack
  cases isStack

theorem Visits.ascends (visits : Visits indents stack) : stack.Ascends := by
  induction visits with
  | between run isStack => exact run.ascends ascends_initial _ isStack
  | arrived run arrives => exact ascends_of_arrive (run.ascends ascends_initial) arrives
  | closing _ hypothesis => exact hypothesis.of_suffix (List.suffix_cons ..)

/-! ## Where a dedent lands -/

/-- How a dedent to a column ends once the blocks right of it are closed: with the marks for
the line, or with none if the line is refused. -/
inductive Landing (column : Nat) (left : Stack) : Option (List Mark) → Prop where
  | atBracket :
      left.topColumn? = none →
      Landing column left (some [])
  | atBlock :
      left.topColumn? = some column →
      Landing column left (some [.itemSeparator])
  | pastBlock
      {top : Nat} :
      left.topColumn? = some top →
      top < column →
      Landing column left none
  | leftOfProgram :
      left.inner = [] →
      column < left.program →
      Landing column left none

/-- The blocks around a block are further left, so where it is not right of a column, none is. -/
theorem Stack.Ascends.rightOf_eq_nil
    {start : Nat} {outer : List Context}
    (ascends : Stack.Ascends ⟨program, .block start :: outer⟩)
    (notRight : ¬ column < start) :
    Stack.rightOf ⟨program, .block start :: outer⟩ column = [] := by
  obtain ⟨-, further⟩ := Stack.ascends_block.mp ascends
  refine List.filter_eq_nil_iff.mpr fun context member => ?_
  cases context with
  | bracket => exact Bool.false_ne_true
  | block other =>
    have inside := List.takeWhile_subset _ member
    rcases List.mem_cons.mp inside with isStart | inOuter
    · cases isStart
      simpa [Context.column?] using Nat.not_lt.mp notRight
    · have isColumn : other ∈ Stack.columns ⟨program, outer⟩ := by
        simp only [Stack.columns, List.mem_cons, List.mem_reverse, List.mem_filterMap]
        exact .inr ⟨_, inOuter, rfl⟩
      have isLeft : other < start := further other isColumn
      have notBelow : ¬ column < other := by omega
      simpa [Context.column?] using notBelow

/-- In ascending columns, the blocks right of a column are the innermost ones since the nearest
bracket; a dedent closes them and lands in what is left. -/
theorem dedent_lands (ascends : Stack.Ascends ⟨program, inner⟩) (column : Nat) :
    ∃ left landing, inner = Stack.rightOf ⟨program, inner⟩ column ++ left ∧
      Landing column ⟨program, left⟩ landing ∧
      dedent column program inner = landing.map fun marks =>
        (List.replicate (Stack.rightOf ⟨program, inner⟩ column).length .blockEnd ++ marks,
          left) := by
  induction inner with
  | nil =>
    refine ⟨[], if column = program then some [.itemSeparator] else none, rfl, ?_, ?_⟩
    · split
      · next same => exact .atBlock (congrArg some same.symm)
      · next other =>
          rcases Nat.lt_or_gt_of_ne other with before | behind
          · exact .leftOfProgram rfl before
          · exact .pastBlock rfl behind
    · rw [dedent]
      split <;> rfl
  | cons context outer hypothesis =>
    cases context with
    | bracket => exact ⟨_, _, rfl, .atBracket rfl, rfl⟩
    | block start =>
      obtain ⟨outerAscends, -⟩ := Stack.ascends_block.mp ascends
      by_cases right : column < start
      · obtain ⟨left, landing, shape, lands, dedents⟩ := hypothesis outerAscends
        have closed : Stack.rightOf ⟨program, .block start :: outer⟩ column =
            .block start :: Stack.rightOf ⟨program, outer⟩ column := by
          simp [Stack.rightOf, Context.column?, right]
        refine ⟨left, landing, ?_, lands, ?_⟩
        · rw [closed, List.cons_append, ← shape]
        · rw [dedent, if_pos right, dedents, closed, Option.map_map]
          rfl
      · have closed := ascends.rightOf_eq_nil right
        refine ⟨.block start :: outer,
          if column = start then some [.itemSeparator] else none, ?_, ?_, ?_⟩
        · rw [closed]
          rfl
        · split
          · next same => exact .atBlock (congrArg some same.symm)
          · exact .pastBlock rfl (by omega)
        · rw [dedent, if_neg right, closed]
          split <;> rfl

/-- A line that starts left of the innermost block, and not with a comma, closes the blocks
right of it up to the nearest bracket and lands in what is left. -/
theorem startLine_lands
    {top : Nat}
    (ascends : stack.Ascends)
    (noComma : token.isMark .comma = false)
    (isTop : stack.topColumn? = some top)
    (dedents : column < top)
    (previous : Option Symbol) :
    ∃ left landing, left.program = stack.program ∧
      stack.inner = stack.rightOf column ++ left.inner ∧ Landing column left landing ∧
      startLine stack previous column token = landing.map fun marks =>
        (List.replicate (stack.rightOf column).length .blockEnd ++ marks, left) := by
  obtain ⟨left, landing, shape, lands, result⟩ := dedent_lands ascends column
  refine ⟨⟨stack.program, left⟩, landing, rfl, shape, lands, ?_⟩
  have opensNone : ¬ stack.innermost < column := by
    rw [Stack.innermost_of_topColumn? isTop]
    exact Nat.lt_asymm dedents
  have further : ¬ top < column := Nat.lt_asymm dedents
  simp only [startLine, opensNone, isTop, noComma, further, decide_false, Bool.and_false,
    Bool.false_or, Bool.false_eq_true, if_false, result, Option.map_map]
  rfl

/-- Where a token arrives with marks, the layout puts these out and goes on behind the token;
where it does not arrive, the layout ends. -/
theorem Run.resolve_cons
    {tokens out : List Token} {state : State}
    (run : Run indents .initial tokens out state)
    (notNewline : token.symbol ≠ .mark .newline)
    (notEnd : token.symbol ≠ .mark .endOfInput)
    (rest : List Token) :
    resolve indents (tokens ++ token :: rest) =
      match arrive indents state token with
      | none => .error (.located (.inconsistentDedent (indentOf indents token)) token.span)
      | some (marks, stack) =>
        (resolveFrom indents ⟨some (passBracket stack token).2, some token.symbol, false⟩
          rest).map (out ++ marksAt token marks ++ marksAt token (passBracket stack token).1 ++
            token :: ·) := by
  have isNewline : token.isMark .newline = false := by simpa [Token.isMark] using notNewline
  have isEnd : token.isMark .endOfInput = false := by simpa [Token.isMark] using notEnd
  rw [resolve, run.resolveFrom_eq, resolveFrom]
  simp only [isNewline, isEnd, Bool.false_eq_true, if_false]
  cases arrive indents state token with
  | none => rfl
  | some pair =>
    obtain ⟨marks, stack⟩ := pair
    dsimp only
    cases resolveFrom indents ⟨some (passBracket stack token).2, some token.symbol, false⟩ rest
      <;> simp [Except.map]

/-- At every moment of a layout the blocks stand in ascending columns.  So a line that starts
left of the innermost block, and not with a comma, closes exactly the blocks right of its column
that were opened since the nearest bracket.  Then nothing is put out if a bracket is left, one
item separator if a block in the column of the line is, and otherwise the line is refused. -/
theorem dedents_resolve_exactly (indents : Indents) :
    (∀ stack, Visits indents stack → stack.Ascends) ∧
    ∀ (front out : List Token) (state : State) (stack : Stack) (token : Token) (top : Nat),
      Run indents .initial front out state →
      state.stack = some stack →
      state.atLineStart = true →
      token.symbol ≠ .mark .newline →
      token.symbol ≠ .mark .endOfInput →
      token.symbol ≠ .mark .comma →
      stack.topColumn? = some top →
      indentOf indents token < top →
      ∃ left landing, left.program = stack.program ∧
        stack.inner = stack.rightOf (indentOf indents token) ++ left.inner ∧
        Landing (indentOf indents token) left landing ∧
        ∀ rest, resolve indents (front ++ token :: rest) =
          match landing with
          | none => .error (.located (.inconsistentDedent (indentOf indents token)) token.span)
          | some marks =>
            (resolveFrom indents ⟨some (passBracket left token).2, some token.symbol, false⟩
              rest).map
              (out ++ marksAt token
                  (List.replicate (stack.rightOf (indentOf indents token)).length .blockEnd ++
                    marks) ++
                marksAt token (passBracket left token).1 ++ token :: ·) := by
  refine ⟨fun stack visits => visits.ascends, ?_⟩
  intro front out state stack token top run isStack atLineStart notNewline notEnd notComma isTop
    dedents
  have ascends : stack.Ascends := run.ascends ascends_initial stack isStack
  have noComma : token.isMark .comma = false := by simpa [Token.isMark] using notComma
  obtain ⟨left, landing, sameProgram, shape, lands, starts⟩ :=
    startLine_lands ascends noComma isTop dedents state.previous
  refine ⟨left, landing, sameProgram, shape, lands, fun rest => ?_⟩
  have arrives : arrive indents state token =
      startLine stack state.previous (indentOf indents token) token := by
    simp only [arrive, isStack, atLineStart, if_true]
  rw [run.resolve_cons notNewline notEnd, arrives, starts]
  cases landing <;> rfl

/-- A token of a symbol at a line and a column. -/
def tokenAt (symbol : Symbol) (line column : Nat) : Token :=
  ⟨symbol, [], ⟨none, ⟨line, column, 0⟩, ⟨line, column, 0⟩⟩⟩

/-- The tokens of an open parenthesis with two blocks inside. -/
def openBlocks : List Token :=
  [tokenAt (.mark .openParen) 1 1, tokenAt (.mark .funWord) 1 2, tokenAt (.mark .arrow) 1 6,
   tokenAt (.mark .newline) 1 8, tokenAt (.identifier "y") 2 7, tokenAt (.mark .assign) 2 9,
   tokenAt (.mark .newline) 2 10, tokenAt (.identifier "x") 3 11, tokenAt (.mark .newline) 3 12]

theorem exists_run_openBlocks :
    ∃ out, Run [] .initial openBlocks out
      ⟨some ⟨1, [.block 11, .block 7, .bracket]⟩, some (.identifier "x"), true⟩ :=
  ⟨_, .token (by decide) (by decide) rfl <| .token (by decide) (by decide) rfl <|
    .token (by decide) (by decide) rfl <| .newline rfl <|
    .token (by decide) (by decide) rfl <| .token (by decide) (by decide) rfl <| .newline rfl <|
    .token (by decide) (by decide) rfl <| .newline rfl .done⟩

/-- A line that starts left of both blocks closes them and stays inside the parenthesis. -/
theorem dedents_resolve_exactly_toBracket :
    ∃ out, Run [] .initial openBlocks out
        ⟨some ⟨1, [.block 11, .block 7, .bracket]⟩, some (.identifier "x"), true⟩ ∧
      Stack.Ascends ⟨1, [.block 11, .block 7, .bracket]⟩ ∧
      ∀ rest, resolve [] (openBlocks ++ tokenAt (.identifier "z") 4 5 :: rest) =
        (resolveFrom [] ⟨some ⟨1, [.bracket]⟩, some (.identifier "z"), false⟩ rest).map
          (out ++ marksAt (tokenAt (.identifier "z") 4 5) [.blockEnd, .blockEnd] ++
            tokenAt (.identifier "z") 4 5 :: ·) := by
  obtain ⟨out, run⟩ := exists_run_openBlocks
  obtain ⟨ascends, dedents⟩ := dedents_resolve_exactly []
  refine ⟨out, run, ascends _ (.between run rfl), fun rest => ?_⟩
  obtain ⟨⟨program, inner⟩, landing, isProgram, shape, lands, resolved⟩ :=
    dedents _ _ _ _ (tokenAt (.identifier "z") 4 5) 11 run rfl rfl (by decide) (by decide)
      (by decide) rfl (by decide)
  obtain rfl : program = 1 := isProgram
  have closed : [.block 11, .block 7, .bracket] = [.block 11, .block 7] ++ inner := shape
  obtain rfl : [.bracket] = inner := (List.cons.inj (List.cons.inj closed).2).2
  cases lands with
  | atBracket =>
    rw [resolved rest, ← List.append_nil (out ++ marksAt _ _)]
    rfl
  | atBlock other => cases other
  | pastBlock other => cases other
  | leftOfProgram other => cases other

end Layout

end Offside
