import Offside.Layout

namespace Offside

/-!
# Runs of the layout

A run of the layout takes a list of tokens without the end of input from one state to
another and says what it puts out.  Two facts about the open contexts hold along every run:
blocks start right of the program, and the brackets among them are those that the output
has opened and not closed.
-/

/-- Whether a mark stands for block structure. -/
def Mark.isLayout : Mark → Bool
  | .blockStart | .blockEnd | .itemSeparator => true
  | _ => false

namespace Layout

variable {stack after : Stack} {column : Nat} {previous : Option Symbol} {marks : List Mark}
  {token : Token}

/-- The layout takes tokens from one state to another with some output. -/
inductive Run (indents : Indents) : State → List Token → List Token → State → Prop where
  | done
      {state : State} :
      Run indents state [] [] state
  | newline
      {state last : State} {token : Token} {rest out : List Token} :
      token.symbol = .mark .newline →
      Run indents { state with atLineStart := true } rest out last →
      Run indents state (token :: rest) out last
  | token
      {state last : State} {token : Token} {rest out : List Token} {lineMarks : List Mark}
      {stack : Stack} :
      token.symbol ≠ .mark .newline →
      token.symbol ≠ .mark .endOfInput →
      arrive indents state token = some (lineMarks, stack) →
      Run indents ⟨some (passBracket stack token).2, some token.symbol, false⟩ rest out last →
      Run indents state (token :: rest)
        (marksAt token lineMarks ++ marksAt token (passBracket stack token).1 ++ token :: out) last

namespace Run

variable {indents : Indents} {state middle last : State} {tokens more out others : List Token}

theorem append
    (first : Run indents state tokens out middle)
    (second : Run indents middle more others last) :
    Run indents state (tokens ++ more) (out ++ others) last := by
  induction first with
  | done => exact second
  | newline isNewline _ hypothesis =>
    exact .newline isNewline (hypothesis second)
  | token noNewline noEnd arrives _ hypothesis =>
    rw [List.append_assoc, List.cons_append]
    exact .token noNewline noEnd arrives (hypothesis second)

/-- A token that brings no marks is kept. -/
theorem kept
    (noNewline : token.symbol ≠ .mark .newline)
    (noEnd : token.symbol ≠ .mark .endOfInput)
    (arrives : arrive indents state token = some ([], stack))
    (passes : passBracket stack token = ([], after))
    (later : Run indents ⟨some after, some token.symbol, false⟩ tokens out last) :
    Run indents state (token :: tokens) (token :: out) last := by
  have run := Run.token noNewline noEnd arrives (by rw [passes]; exact later)
  rwa [passes] at run

/-- The layout goes on after a run. -/
theorem resolveFrom_eq (run : Run indents state tokens out last) (rest : List Token) :
    resolveFrom indents state (tokens ++ rest) =
      (resolveFrom indents last rest).map (out ++ ·) := by
  induction run with
  | @done state =>
    show resolveFrom indents state rest = _
    cases resolveFrom indents state rest <;> rfl
  | newline isNewline _ hypothesis =>
    rw [List.cons_append, resolveFrom, ← hypothesis]
    simp [Token.isMark, isNewline]
  | @token _ last token _ _ _ stack noNewline noEnd arrives _ hypothesis =>
    have isNewline : token.isMark .newline = false := by simpa [Token.isMark] using noNewline
    have isEnd : token.isMark .endOfInput = false := by simpa [Token.isMark] using noEnd
    rw [List.cons_append, resolveFrom]
    simp only [isNewline, isEnd, Bool.false_eq_true, if_false, arrives, hypothesis]
    cases resolveFrom indents last rest <;> simp [Except.map]

end Run

/-- What the layout accepts, it runs through. -/
theorem exists_run
    {indents : Indents} {state : State} {tokens rest result : List Token}
    (inside : ∀ token ∈ tokens, token.symbol ≠ .mark .endOfInput)
    (resolved : resolveFrom indents state (tokens ++ rest) = .ok result) :
    ∃ out last, Run indents state tokens out last := by
  induction tokens generalizing state result with
  | nil => exact ⟨[], state, .done⟩
  | cons token tokens hypothesis =>
    have inTail : ∀ token ∈ tokens, token.symbol ≠ .mark .endOfInput :=
      fun other member => inside other (List.mem_cons_of_mem _ member)
    have noEnd := inside token List.mem_cons_self
    have isEnd : token.isMark .endOfInput = false := by simpa [Token.isMark] using noEnd
    rw [List.cons_append, resolveFrom] at resolved
    by_cases isNewline : token.symbol = .mark .newline
    · simp only [Token.isMark, isNewline, beq_self_eq_true, if_true] at resolved
      obtain ⟨out, last, run⟩ := hypothesis inTail resolved
      exact ⟨out, last, .newline isNewline run⟩
    · have noNewline : token.isMark .newline = false := by simpa [Token.isMark] using isNewline
      simp only [noNewline, isEnd, Bool.false_eq_true, if_false] at resolved
      cases arrives : arrive indents state token with
      | none => simp [arrives] at resolved
      | some pair =>
        obtain ⟨lineMarks, stack⟩ := pair
        simp only [arrives] at resolved
        cases later : resolveFrom indents ⟨some (passBracket stack token).2,
            some token.symbol, false⟩ (tokens ++ rest) with
        | error => simp [later] at resolved
        | ok =>
          obtain ⟨out, last, run⟩ := hypothesis inTail later
          exact ⟨_, last, .token isNewline noEnd arrives run⟩

/-! ## Open contexts -/

/-- Every block starts right of the program. -/
def Stack.Indented (stack : Stack) : Prop :=
  ∀ column, .block column ∈ stack.inner → stack.program < column

theorem Stack.Indented.le_innermost (indented : stack.Indented) :
    stack.program ≤ stack.innermost := by
  unfold innermost
  cases found : stack.inner.findSome? _ with
  | none => exact Nat.le_refl _
  | some column =>
    obtain ⟨context, member, isBlock⟩ := List.exists_of_findSome?_eq_some found
    cases context with
    | block other =>
      cases isBlock
      exact Nat.le_of_lt (indented column member)
    | bracket => cases isBlock

/-- How many brackets are open. -/
def Stack.brackets (stack : Stack) : Nat :=
  stack.inner.count .bracket

/-- Closing and opening blocks keeps the program, the brackets and the order of columns, and
puts out marks of block structure only. -/
structure Arrival (stack : Stack) (marks : List Mark) (after : Stack) : Prop where
  program : after.program = stack.program
  brackets : after.brackets = stack.brackets
  indented : stack.Indented → after.Indented
  marks : ∀ mark ∈ marks, mark.isLayout = true

theorem Arrival.refl (stack : Stack) : Arrival stack [] stack :=
  ⟨rfl, rfl, id, by simp⟩

/-- How a line lands at a column: blocks right of it are closed, up to an item of the program or
of a block, or up to a bracket. -/
inductive Dedents (column program : Nat) : List Context → List Mark → List Context → Prop where
  | program :
      column = program →
      Dedents column program [] [.itemSeparator] []
  | bracket
      {outer : List Context} :
      Dedents column program (.bracket :: outer) [] (.bracket :: outer)
  | item
      {start : Nat} {outer : List Context} :
      column = start →
      Dedents column program (.block start :: outer) [.itemSeparator] (.block start :: outer)
  | close
      {start : Nat} {outer left : List Context} {marks : List Mark} :
      column < start →
      Dedents column program outer marks left →
      Dedents column program (.block start :: outer) (.blockEnd :: marks) left

theorem dedents_of_dedent
    {program : Nat} {inner left : List Context}
    (dedents : dedent column program inner = some (marks, left)) :
    Dedents column program inner marks left := by
  induction inner generalizing marks left with
  | nil =>
    rw [dedent] at dedents
    split at dedents <;> cases dedents
    next atProgram => exact .program atProgram
  | cons context outer hypothesis =>
    cases context with
    | bracket =>
      cases dedents
      exact .bracket
    | block start =>
      rw [dedent] at dedents
      split at dedents
      · next before =>
          obtain ⟨⟨more, rest⟩, closes, same⟩ := Option.map_eq_some_iff.mp dedents
          cases same
          exact .close before (hypothesis closes)
      · split at dedents <;> cases dedents
        next atBlock => exact .item atBlock

/-- A line start opens a block right of the innermost one, leaves the contexts as they are, or
closes some of them. -/
theorem startLine_cases
    (starts : startLine stack previous column token = some (marks, after)) :
    stack.innermost < column ∧ marks = [.blockStart] ∧
        after = { stack with inner := .block column :: stack.inner } ∨
      marks = [] ∧ after = stack ∨
      after.program = stack.program ∧
        Dedents column stack.program stack.inner marks after.inner := by
  unfold startLine at starts
  split at starts
  · next opens =>
      cases starts
      exact .inl ⟨of_decide_eq_true (Bool.and_eq_true_iff.mp opens).2, rfl, rfl⟩
  · split at starts
    · cases starts
      exact .inr (.inl ⟨rfl, rfl⟩)
    · split at starts
      · cases starts
        exact .inr (.inl ⟨rfl, rfl⟩)
      · obtain ⟨⟨marks, left⟩, dedents, same⟩ := Option.map_eq_some_iff.mp starts
        cases same
        exact .inr (.inr ⟨rfl, dedents_of_dedent dedents⟩)

theorem Dedents.arrival
    {program : Nat} {inner left : List Context}
    (dedents : Dedents column program inner marks left) :
    Arrival ⟨program, inner⟩ marks ⟨program, left⟩ := by
  induction dedents with
  | program | item => exact ⟨rfl, rfl, id, fun _ member => List.mem_singleton.mp member ▸ rfl⟩
  | bracket => exact .refl _
  | close _ _ arrival =>
    refine ⟨rfl, ?_, fun indented => arrival.indented fun column member => ?_, ?_⟩
    · rw [arrival.brackets]
      simp [Stack.brackets]
    · exact indented column (List.mem_cons_of_mem _ member)
    · exact List.forall_mem_cons.mpr ⟨rfl, arrival.marks⟩

theorem arrival_of_startLine
    (starts : startLine stack previous column token = some (marks, after)) :
    Arrival stack marks after := by
  obtain ⟨right, rfl, rfl⟩ | ⟨rfl, rfl⟩ | ⟨sameProgram, dedents⟩ := startLine_cases starts
  · refine ⟨rfl, by simp [Stack.brackets], fun indented other => ?_, fun _ member =>
      List.mem_singleton.mp member ▸ rfl⟩
    rintro (_ | ⟨_, member⟩)
    · exact Nat.lt_of_le_of_lt indented.le_innermost right
    · exact indented other member
  · exact .refl after
  · obtain ⟨program, left⟩ := after
    cases sameProgram
    exact dedents.arrival

theorem arrival_of_arrive
    {indents : Indents} {atLineStart : Bool}
    (arrives : arrive indents ⟨some stack, previous, atLineStart⟩ token = some (marks, after)) :
    Arrival stack marks after := by
  rw [arrive] at arrives
  cases atLineStart with
  | true => exact arrival_of_startLine arrives
  | false =>
    cases arrives
    exact .refl stack

/-- The number of open brackets after a symbol; `none` if it closes a bracket and none is
open. -/
def depthAfter (depth : Nat) (symbol : Symbol) : Option Nat :=
  match symbol with
  | .mark mark =>
    if mark.opensBracket then some (depth + 1)
    else if mark.closesBracket then
      match depth with
      | 0 => none
      | depth + 1 => some depth
    else some depth
  | _ => some depth

theorem depthAfter_layout {mark : Mark} (isLayout : mark.isLayout = true) (depth : Nat) :
    depthAfter depth (.mark mark) = some depth := by
  cases mark <;> first | rfl | cases isLayout

/-- What closing a bracket does to the open contexts. -/
theorem closeBracket_spec (inner : List Context) :
    match closeBracket inner with
    | none => inner.count .bracket = 0
    | some (marks, left) => inner.count .bracket = left.count .bracket + 1 ∧
        (∀ context ∈ left, context ∈ inner) ∧ ∀ mark ∈ marks, mark.isLayout = true := by
  induction inner with
  | nil => rfl
  | cons context outer hypothesis =>
    cases context with
    | bracket => exact ⟨by simp, fun _ => List.mem_cons_of_mem _, by simp⟩
    | block column =>
      rw [closeBracket]
      cases closes : closeBracket outer with
      | none =>
        rw [closes] at hypothesis
        simpa using hypothesis
      | some pair =>
        rw [closes] at hypothesis
        obtain ⟨counts, members, areLayout⟩ := hypothesis
        refine ⟨by simpa using counts, fun _ member => ?_, ?_⟩
        · exact List.mem_cons_of_mem _ (members _ member)
        · rintro mark (_ | ⟨_, member⟩)
          · rfl
          · exact areLayout mark member

/-- A token changes the number of open brackets as its symbol says. -/
theorem passBracket_spec (stack : Stack) (token : Token) :
    (passBracket stack token).2.program = stack.program ∧
      (stack.Indented → (passBracket stack token).2.Indented) ∧
      (∀ mark ∈ (passBracket stack token).1, mark.isLayout = true) ∧
      ∀ depth, depthAfter stack.brackets token.symbol = some depth →
        (passBracket stack token).2.brackets = depth := by
  unfold passBracket
  cases token.symbol with
  | mark mark =>
    simp only [depthAfter]
    split
    · refine ⟨rfl, fun indented column => ?_, by simp, by simp [Stack.brackets]⟩
      rintro (_ | ⟨_, member⟩)
      exact indented column member
    · split
      · have spec := closeBracket_spec stack.inner
        cases closes : closeBracket stack.inner with
        | none =>
          rw [closes] at spec
          have noBracket : stack.brackets = 0 := spec
          simp [noBracket]
        | some pair =>
          rw [closes] at spec
          obtain ⟨counts, members, areLayout⟩ := spec
          refine ⟨rfl, fun indented column member => indented column (members _ member),
            areLayout, ?_⟩
          have counts : stack.brackets = pair.2.count .bracket + 1 := counts
          rw [counts]
          rintro depth ⟨⟩
          rfl
      · exact ⟨rfl, id, by simp, by simp⟩
  | _ => exact ⟨rfl, id, by simp, by simp [depthAfter]⟩

/-- The blocks of a state start right of the program. -/
def State.Indented (state : State) : Prop :=
  ∀ stack ∈ state.stack, stack.Indented

/-- How many brackets are open in a state. -/
def State.brackets (state : State) : Nat :=
  (state.stack.map Stack.brackets).getD 0

theorem brackets_of_arrive
    {indents : Indents} {state : State}
    (arrives : arrive indents state token = some (marks, stack)) :
    stack.brackets = state.brackets ∧ (state.Indented → stack.Indented) ∧
      ∀ mark ∈ marks, mark.isLayout = true := by
  obtain ⟨before, previous, atLineStart⟩ := state
  cases before with
  | none =>
    cases arrives
    exact ⟨rfl, fun _ => nofun, nofun⟩
  | some before =>
    have arrival := arrival_of_arrive arrives
    exact ⟨arrival.brackets, fun indented => arrival.indented (indented before rfl),
      arrival.marks⟩

theorem symbol_marksAt (token : Token) (marks : List Mark) :
    (marksAt token marks).map (·.symbol) = marks.map .mark := by
  simp [marksAt]

/-- Marks of block structure do not change the depth. -/
theorem foldlM_depthAfter_layout (areLayout : ∀ mark ∈ marks, mark.isLayout = true) (depth : Nat) :
    (marks.map Symbol.mark).foldlM depthAfter depth = some depth := by
  induction marks with
  | nil => rfl
  | cons mark marks hypothesis =>
    have later := hypothesis fun other member =>
      areLayout other (List.mem_cons_of_mem _ member)
    rw [List.map_cons, List.foldlM_cons, depthAfter_layout (areLayout mark List.mem_cons_self)]
    exact later

namespace Run

variable {indents : Indents} {state last : State} {tokens out : List Token}

theorem indented (run : Run indents state tokens out last) (starts : state.Indented) :
    last.Indented := by
  induction run with
  | done => exact starts
  | newline _ _ hypothesis => exact hypothesis starts
  | token _ _ arrives _ hypothesis =>
    refine hypothesis ?_
    rintro _ ⟨⟩
    exact (passBracket_spec ..).2.1 ((brackets_of_arrive arrives).2.1 starts)

/-- As long as the output closes no bracket that it has not opened, the open brackets are
those of the output. -/
theorem brackets
    (run : Run indents state tokens out last)
    {depth : Nat}
    (counts : (out.map (·.symbol)).foldlM depthAfter state.brackets = some depth) :
    last.brackets = depth := by
  induction run with
  | done => exact Option.some.inj counts
  | newline _ _ hypothesis => exact hypothesis counts
  | @token state _ token _ out _ stack _ _ arrives _ hypothesis =>
    obtain ⟨sameBrackets, -, lineMarks⟩ := brackets_of_arrive arrives
    obtain ⟨-, -, bracketMarks, passes⟩ := passBracket_spec stack token
    simp only [List.map_append, List.map_cons, symbol_marksAt, List.foldlM_append,
      List.foldlM_cons, foldlM_depthAfter_layout lineMarks,
      foldlM_depthAfter_layout bracketMarks, Option.bind_eq_bind, Option.bind_some] at counts
    obtain ⟨between, isBetween, later⟩ := Option.bind_eq_some_iff.mp counts
    refine hypothesis ?_
    rw [← sameBrackets] at isBetween
    have here : State.brackets ⟨some (passBracket stack token).2, some token.symbol, false⟩ =
        between := passes between isBetween
    rw [here]
    exact later

/-- A run does not put out the end of input. -/
theorem symbol_ne_endOfInput (run : Run indents state tokens out last) :
    ∀ token ∈ out, token.symbol ≠ .mark .endOfInput := by
  induction run with
  | done => simp
  | newline _ _ hypothesis => exact hypothesis
  | @token _ _ token _ _ _ stack _ noEnd arrives _ hypothesis =>
    have ofMarks {marks : List Mark} (areLayout : ∀ mark ∈ marks, mark.isLayout = true) :
        ∀ other ∈ marksAt token marks, other.symbol ≠ .mark .endOfInput := by
      rintro _ member isEnd
      obtain ⟨mark, isMark, rfl⟩ := List.mem_map.mp member
      cases isEnd
      cases areLayout _ isMark
    intro other member
    rcases List.mem_append.mp member with inMarks | inRest
    · rcases List.mem_append.mp inMarks with inLine | inBracket
      · exact ofMarks (brackets_of_arrive arrives).2.2 other inLine
      · exact ofMarks (passBracket_spec stack token).2.2.1 other inBracket
    · rcases List.mem_cons.mp inRest with rfl | inOut
      · exact noEnd
      · exact hypothesis other inOut

/-- The program starts where its first token does and stays there. -/
theorem program (run : Run indents state tokens out last) (starts : state.stack = some stack) :
    ∃ after, last.stack = some after ∧ after.program = stack.program := by
  induction run generalizing stack with
  | done => exact ⟨stack, starts, rfl⟩
  | newline _ _ hypothesis => exact hypothesis starts
  | @token state _ token _ _ _ between _ _ arrives _ hypothesis =>
    obtain ⟨after, isLast, same⟩ := hypothesis rfl
    refine ⟨after, isLast, same.trans ((passBracket_spec ..).1.trans ?_)⟩
    obtain ⟨_, previous, atLineStart⟩ := state
    cases starts
    exact (arrival_of_arrive arrives).program

end Run

end Layout

end Offside
