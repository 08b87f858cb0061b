import Mathlib.Data.List.Forall2
import Offside.Proofs.Layout.Run

namespace Offside

/-!
# The order of columns

The layout compares columns and does nothing else with them.  So two token lists with the same
symbols are laid out alike as soon as the columns of their line starts stand in the same order:
the contexts that are open in the one layout match those of the other at every token.
-/

namespace Layout

variable {tokens others : List Token} {inner : List Context} {token otherToken : Token}
  {state : State}

/-- A rescaling says which columns stand for which; it keeps their order. -/
structure Rescaling where
  takes : Nat → Nat → Prop
  lt_iff {column other moved otherMoved : Nat} :
    takes column moved → takes other otherMoved → (column < other ↔ moved < otherMoved)

namespace Rescaling

/-- The rescaling that leaves columns where they are. -/
def same : Rescaling where
  takes := Eq
  lt_iff := by
    rintro _ _ _ _ rfl rfl
    exact Iff.rfl

variable {scale : Rescaling} {column other moved otherMoved : Nat}

theorem eq_iff (here : scale.takes column moved) (there : scale.takes other otherMoved) :
    column = other ↔ moved = otherMoved := by
  have forth := scale.lt_iff here there
  have back := scale.lt_iff there here
  omega

end Rescaling

/-- A likeness of tokens: like tokens have the same symbol, and marks at their places are
alike. -/
structure Likeness where
  like : Token → Token → Prop
  symbol_eq {token other : Token} : like token other → token.symbol = other.symbol
  atStart {token other : Token} : like token other → ∀ mark : Mark,
    like ⟨.mark mark, [], token.span.atStart⟩ ⟨.mark mark, [], other.span.atStart⟩

namespace Likeness

/-- Tokens that are the same in all. -/
def identical : Likeness where
  like := Eq
  symbol_eq := congrArg Token.symbol
  atStart := by
    rintro _ _ rfl _
    rfl

/-- Tokens with the same symbol. -/
def sameSymbol : Likeness where
  like token other := token.symbol = other.symbol
  symbol_eq := id
  atStart := fun _ _ => rfl

variable {likeness : Likeness} {token other : Token}

theorem marksAt (alike : likeness.like token other) (marks : List Mark) :
    List.Forall₂ likeness.like (marksAt token marks) (marksAt other marks) := by
  induction marks with
  | nil => exact .nil
  | cons mark marks hypothesis =>
    exact .cons (likeness.atStart alike mark) hypothesis

theorem map_symbol_eq (alike : List.Forall₂ likeness.like tokens others) :
    others.map (·.symbol) = tokens.map (·.symbol) := by
  induction alike with
  | nil => rfl
  | cons first _ hypothesis =>
    rw [List.map_cons, List.map_cons, hypothesis, likeness.symbol_eq first]

end Likeness

/-! ## Contexts that match -/

section

variable (scale : Rescaling)

/-- Two contexts are brackets, or blocks at columns that stand for each other. -/
inductive Context.Matches : Context → Context → Prop where
  | block
      {column moved : Nat} :
      scale.takes column moved →
      Matches (.block column) (.block moved)
  | bracket :
      Matches .bracket .bracket

/-- Two stacks match context by context. -/
structure Stack.Matches (stack other : Stack) : Prop where
  program : scale.takes stack.program other.program
  inner : List.Forall₂ (Context.Matches scale) stack.inner other.inner

/-- Two states match: their stacks do, and they stand behind the same symbol at the same
place of a line. -/
structure State.Matches (state other : State) : Prop where
  stack : Option.Rel (Stack.Matches scale) state.stack other.stack
  previous : state.previous = other.previous
  atLineStart : state.atLineStart = other.atLineStart

/-- Closing contexts gives the same marks and leaves contexts that match. -/
def ClosesAlike (closed other : Option (List Mark × List Context)) : Prop :=
  Option.Rel (fun pair other => pair.1 = other.1 ∧
    List.Forall₂ (Context.Matches scale) pair.2 other.2) closed other

/-- Two tokens arrive with the same marks and in stacks that match. -/
def ArrivesAlike (arrival other : Option (List Mark × Stack)) : Prop :=
  Option.Rel (fun pair other => pair.1 = other.1 ∧ pair.2.Matches scale other.2) arrival other

end

variable {scale : Rescaling}

theorem State.matches_initial : State.initial.Matches scale State.initial :=
  ⟨.none, rfl, rfl⟩

theorem ClosesAlike.map_cons
    {closed other : Option (List Mark × List Context)}
    (alike : ClosesAlike scale closed other)
    (mark : Mark) :
    ClosesAlike scale (closed.map fun (marks, rest) => (mark :: marks, rest))
      (other.map fun (marks, rest) => (mark :: marks, rest)) := by
  cases alike with
  | none => exact .none
  | some both => exact .some ⟨congrArg (mark :: ·) both.1, both.2⟩

/-- A stack takes over what closing contexts leaves. -/
theorem ClosesAlike.arrives
    {closed other : Option (List Mark × List Context)} {program moved : Nat}
    (alike : ClosesAlike scale closed other)
    (programs : scale.takes program moved) :
    ArrivesAlike scale (closed.map fun (marks, inner) => (marks, ⟨program, inner⟩))
      (other.map fun (marks, inner) => (marks, ⟨moved, inner⟩)) := by
  cases alike with
  | none => exact .none
  | some both => exact .some ⟨both.1, programs, both.2⟩

namespace Stack.Matches

variable {stack other : Stack}

theorem innermost (matching : stack.Matches scale other) :
    scale.takes stack.innermost other.innermost := by
  obtain ⟨program, inner⟩ := stack
  obtain ⟨otherProgram, otherInner⟩ := other
  obtain ⟨programs, inners⟩ := matching
  unfold Stack.innermost
  simp only at programs inners ⊢
  induction inners with
  | nil => exact programs
  | cons first _ hypothesis =>
    cases first with
    | block columns => exact columns
    | bracket => exact hypothesis

theorem topColumn? (matching : stack.Matches scale other) :
    Option.Rel scale.takes stack.topColumn? other.topColumn? := by
  obtain ⟨program, inner⟩ := stack
  obtain ⟨otherProgram, otherInner⟩ := other
  obtain ⟨programs, inners⟩ := matching
  cases inners with
  | nil => exact .some programs
  | cons first _ =>
    cases first with
    | block columns => exact .some columns
    | bracket => exact .none

end Stack.Matches

theorem dedent_alike
    {column program moved movedProgram : Nat} {others : List Context}
    (columns : scale.takes column moved)
    (programs : scale.takes program movedProgram)
    (inners : List.Forall₂ (Context.Matches scale) inner others) :
    ClosesAlike scale (dedent column program inner) (dedent moved movedProgram others) := by
  induction inners with
  | nil =>
    rw [dedent, dedent]
    by_cases atProgram : column = program
    · rw [if_pos atProgram, if_pos ((scale.eq_iff columns programs).mp atProgram)]
      exact .some ⟨rfl, .nil⟩
    · rw [if_neg atProgram, if_neg (mt (scale.eq_iff columns programs).mpr atProgram)]
      exact .none
  | @cons context other outer others first later hypothesis =>
    cases first with
    | bracket => exact .some ⟨rfl, .cons .bracket later⟩
    | @block start movedStart starts =>
      rw [dedent, dedent]
      by_cases left : column < start
      · rw [if_pos left, if_pos ((scale.lt_iff columns starts).mp left)]
        exact hypothesis.map_cons .blockEnd
      · rw [if_neg left, if_neg (mt (scale.lt_iff columns starts).mpr left)]
        by_cases here : column = start
        · rw [if_pos here, if_pos ((scale.eq_iff columns starts).mp here)]
          exact .some ⟨rfl, .cons (.block starts) later⟩
        · rw [if_neg here, if_neg (mt (scale.eq_iff columns starts).mpr here)]
          exact .none

theorem startLine_alike
    {stack other : Stack} {column moved : Nat}
    (matching : stack.Matches scale other)
    (columns : scale.takes column moved)
    (sameSymbol : token.symbol = otherToken.symbol)
    (previous : Option Symbol) :
    ArrivesAlike scale (startLine stack previous column token)
      (startLine other previous moved otherToken) := by
  have opening : (previous.any opensBlock && decide (stack.innermost < column)) =
      (previous.any opensBlock && decide (other.innermost < moved)) := by
    rw [decide_eq_decide.mpr (scale.lt_iff matching.innermost columns)]
  unfold startLine Token.isMark
  rw [opening, sameSymbol]
  split
  · exact .some ⟨rfl, matching.program, .cons (.block columns) matching.inner⟩
  · have tops := matching.topColumn?
    generalize stack.topColumn? = top, other.topColumn? = otherTop at tops ⊢
    cases tops with
    | none => exact .some ⟨rfl, matching⟩
    | some tops =>
      simp only [decide_eq_decide.mpr (scale.lt_iff tops columns)]
      split
      · exact .some ⟨rfl, matching⟩
      · exact (dedent_alike columns matching.program matching.inner).arrives matching.program

theorem closeBracket_alike
    {others : List Context}
    (inners : List.Forall₂ (Context.Matches scale) inner others) :
    ClosesAlike scale (closeBracket inner) (closeBracket others) := by
  induction inners with
  | nil => exact .none
  | cons first later hypothesis =>
    cases first with
    | bracket => exact .some ⟨rfl, later⟩
    | block => exact hypothesis.map_cons .blockEnd

theorem passBracket_alike
    {stack other : Stack}
    (matching : stack.Matches scale other)
    (sameSymbol : token.symbol = otherToken.symbol) :
    (passBracket stack token).1 = (passBracket other otherToken).1 ∧
      (passBracket stack token).2.Matches scale (passBracket other otherToken).2 := by
  unfold passBracket
  rw [← sameSymbol]
  cases token.symbol with
  | mark mark =>
    simp only
    split
    · exact ⟨rfl, matching.program, .cons .bracket matching.inner⟩
    split
    · have closes := closeBracket_alike matching.inner
      generalize closeBracket stack.inner = closed, closeBracket other.inner = otherClosed
        at closes ⊢
      cases closes with
      | none => exact ⟨rfl, matching⟩
      | some both => exact ⟨both.1, matching.program, both.2⟩
    · exact ⟨rfl, matching⟩
  | _ => exact ⟨rfl, matching⟩

theorem closeAll_alike
    {others : List Context}
    (inners : List.Forall₂ (Context.Matches scale) inner others) :
    closeAll inner = closeAll others := by
  induction inners with
  | nil => rfl
  | cons first _ hypothesis =>
    cases first with
    | bracket => exact hypothesis
    | block => exact congrArg (Mark.blockEnd :: ·) hypothesis

theorem State.Matches.closeAll_eq {other : State} (matching : state.Matches scale other) :
    closeAll ((state.stack.map (·.inner)).getD []) =
      closeAll ((other.stack.map (·.inner)).getD []) := by
  obtain ⟨stack, _, _⟩ := state
  obtain ⟨otherStack, _, _⟩ := other
  cases matching.stack with
  | none => rfl
  | some contexts => exact closeAll_alike contexts.inner

/-- Only at the start of a line the layout looks at columns. -/
theorem arrive_alike
    {indents records : Indents} {other : State}
    (matching : state.Matches scale other)
    (sameSymbol : token.symbol = otherToken.symbol)
    (columns : (state.stack.isNone || state.atLineStart) = true →
      scale.takes (indentOf indents token) (indentOf records otherToken)) :
    ArrivesAlike scale (arrive indents state token) (arrive records other otherToken) := by
  obtain ⟨stack, previous, atLineStart⟩ := state
  obtain ⟨otherStack, _, _⟩ := other
  obtain ⟨contexts, rfl, rfl⟩ := matching
  cases contexts with
  | none => exact .some ⟨rfl, columns rfl, .nil⟩
  | some contexts =>
    cases atLineStart with
    | true => exact startLine_alike contexts (columns rfl) sameSymbol previous
    | false => exact .some ⟨rfl, contexts⟩

/-- Only at the start of a line a token is refused. -/
theorem starts_of_arrive_eq_none
    {indents : Indents}
    (refused : arrive indents state token = none) :
    (state.stack.isNone || state.atLineStart) = true := by
  obtain ⟨stack, previous, atLineStart⟩ := state
  cases stack with
  | none => rfl
  | some stack =>
    cases atLineStart with
    | true => rfl
    | false => cases refused

/-! ## Token lists that correspond -/

section

variable (scale : Rescaling) (likeness : Likeness) (indents records : Indents)

/-- Two token lists correspond one to one, and so do the columns where their lines start; the
flag says whether a line starts here. -/
inductive Corresponds : (starts : Bool) → (tokens others : List Token) → Prop where
  | nil
      {starts : Bool} :
      Corresponds starts [] []
  | newline
      {starts : Bool} {token other : Token} {tokens others : List Token} :
      token.symbol = .mark .newline →
      other.symbol = .mark .newline →
      Corresponds true tokens others →
      Corresponds starts (token :: tokens) (other :: others)
  | ending
      {starts : Bool} {token other : Token} :
      token.symbol = .mark .endOfInput →
      likeness.like token other →
      Corresponds starts [token] [other]
  | visible
      {starts : Bool} {token other : Token} {tokens others : List Token} :
      likeness.like token other →
      token.symbol ≠ .mark .newline →
      token.symbol ≠ .mark .endOfInput →
      (starts = true → scale.takes (indentOf indents token) (indentOf records other)) →
      Corresponds false tokens others →
      Corresponds starts (token :: tokens) (other :: others)

/-- Two layouts agree: both put out like tokens, or both refuse the line that starts with one of
two tokens that stand at the same place of their lists. -/
inductive Agrees (tokens others : List Token) :
    Except Fault (List Token) → Except Fault (List Token) → Prop where
  | laid
      {out result : List Token} :
      List.Forall₂ likeness.like out result →
      Agrees tokens others (.ok out) (.ok result)
  | refused
      {token other : Token} :
      (token, other) ∈ tokens.zip others →
      likeness.like token other →
      scale.takes (indentOf indents token) (indentOf records other) →
      Agrees tokens others
        (.error (.located (.inconsistentDedent (indentOf indents token)) token.span))
        (.error (.located (.inconsistentDedent (indentOf records other)) other.span))

end

variable {likeness : Likeness} {indents records : Indents}

theorem Agrees.cons
    {tokens others : List Token} {first second : Except Fault (List Token)}
    (agrees : Agrees scale likeness indents records tokens others first second)
    (token other : Token) :
    Agrees scale likeness indents records (token :: tokens) (other :: others) first second := by
  cases agrees with
  | laid alike => exact .laid alike
  | refused member alike columns => exact .refused (List.mem_cons_of_mem _ member) alike columns

theorem resolveFrom_of_newline
    (isNewline : token.symbol = .mark .newline)
    {rest : List Token} :
    resolveFrom indents state (token :: rest) =
      resolveFrom indents { state with atLineStart := true } rest := by
  rw [resolveFrom, if_pos (by simp [Token.isMark, isNewline])]

theorem resolveFrom_of_end
    (isEnd : token.symbol = .mark .endOfInput)
    {rest : List Token} :
    resolveFrom indents state (token :: rest) =
      .ok (marksAt token (closeAll ((state.stack.map (·.inner)).getD [])) ++ [token]) := by
  rw [resolveFrom, if_neg (by simp [Token.isMark, isEnd]), if_pos (by simp [Token.isMark, isEnd])]

/-- Token lists that correspond are laid out alike from states that match. -/
theorem resolveFrom_agrees
    {starts : Bool}
    (corresponds : Corresponds scale likeness indents records starts tokens others)
    {other : State}
    (matching : state.Matches scale other)
    (knows : (state.stack.isNone || state.atLineStart) = true → starts = true) :
    Agrees scale likeness indents records tokens others
      (resolveFrom indents state tokens) (resolveFrom records other others) := by
  induction corresponds generalizing state other with
  | nil => exact .laid .nil
  | @newline _ token otherToken _ _ isNewline isOther _ hypothesis =>
    rw [resolveFrom_of_newline isNewline, resolveFrom_of_newline isOther]
    have later : State.Matches scale { state with atLineStart := true }
        { other with atLineStart := true } :=
      ⟨matching.stack, matching.previous, rfl⟩
    exact (hypothesis later fun _ => rfl).cons ..
  | @ending _ token otherToken isEnd alike =>
    rw [resolveFrom_of_end isEnd, resolveFrom_of_end ((likeness.symbol_eq alike).symm.trans isEnd),
      matching.closeAll_eq]
    exact .laid (List.rel_append (Likeness.marksAt alike _) (.cons alike .nil))
  | @visible _ token otherToken tokens others alike noNewline noEnd columns _
      hypothesis =>
      have sameSymbol := likeness.symbol_eq alike
      have arrivals := arrive_alike matching sameSymbol fun asked => columns (knows asked)
      rw [resolveFrom, resolveFrom, if_neg (by simpa [Token.isMark] using noNewline),
        if_neg (by simpa [Token.isMark] using noEnd),
        if_neg (by simpa [Token.isMark, ← sameSymbol] using noNewline),
        if_neg (by simpa [Token.isMark, ← sameSymbol] using noEnd)]
      cases arrives : arrive indents state token with
      | none =>
        rw [arrives] at arrivals
        generalize arrive records other otherToken = otherArrival at arrivals ⊢
        cases arrivals
        exact .refused List.mem_cons_self alike
          (columns (knows (starts_of_arrive_eq_none arrives)))
      | some pair =>
        rw [arrives] at arrivals
        generalize arrive records other otherToken = otherArrival at arrivals ⊢
        cases arrivals with
        | @some _ otherPair both =>
          obtain ⟨marks, stack⟩ := pair
          obtain ⟨_, otherStack⟩ := otherPair
          obtain ⟨rfl, contexts⟩ := both
          obtain ⟨sameMarks, passed⟩ := passBracket_alike contexts sameSymbol
          have behind : State.Matches scale
              ⟨some (passBracket stack token).2, some token.symbol, false⟩
              ⟨some (passBracket otherStack otherToken).2, some otherToken.symbol, false⟩ :=
            ⟨.some passed, congrArg some sameSymbol, rfl⟩
          have later := hypothesis behind Bool.noConfusion
          simp only at later ⊢
          generalize resolveFrom indents _ tokens = first, resolveFrom records _ others = second
            at later ⊢
          cases later with
          | laid rests =>
            rw [sameMarks]
            exact .laid (List.rel_append (List.rel_append (Likeness.marksAt alike _)
              (Likeness.marksAt alike _)) (.cons alike rests))
          | refused member others columns =>
            exact .refused (List.mem_cons_of_mem _ member) others columns

/-- Token lists that correspond from the start are laid out alike. -/
theorem resolve_agrees
    (corresponds : Corresponds scale likeness indents records true tokens others) :
    Agrees scale likeness indents records tokens others
      (resolve indents tokens) (resolve records others) :=
  resolveFrom_agrees corresponds State.matches_initial fun _ => rfl

end Layout

end Offside
