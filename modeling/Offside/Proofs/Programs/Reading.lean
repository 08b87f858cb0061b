import Offside.Proofs.Layout.Indents
import Offside.Proofs.Layout.Run
import Offside.Proofs.Syntax.Recognition

namespace Offside

/-!
# From a source to a program

A source is read as a program when its code points pass as tokens, the layout runs through
these tokens, and the terminals of what the layout puts out are derived as statements.
-/

open Grammar Layout TokenStream

/-- A source whose program passes a test is read as such a program. -/
theorem Program.exists_of_any
    {file : Option Text} {source : Text} {test : Program → Bool}
    (passes : (Program.ofSource file source).toOption.any test = true) :
    ∃ program, Program.ofSource file source = .ok program ∧ test program = true := by
  cases read : Program.ofSource file source with
  | error => simp [read, Except.toOption] at passes
  | ok program => exact ⟨program, rfl, by simpa [read, Except.toOption] using passes⟩

theorem isLayout_of_mem_closeAll
    {inner : List Context} {mark : Mark}
    (member : mark ∈ closeAll inner) :
    mark.isLayout = true := by
  obtain ⟨context, -, closes⟩ := List.mem_filterMap.mp member
  cases context <;> cases closes
  rfl

/-- At the end of a source every block that is open is closed. -/
theorem Layout.resolveFrom_endTokens
    (indents : Indents)
    (state : State)
    (file : Option Text)
    (last : Reader) :
    ∃ token, token.symbol = .mark .endOfInput ∧
      resolveFrom indents state (endTokens file last) =
        .ok (marksAt token (closeAll ((state.stack.map (·.inner)).getD [])) ++ [token]) := by
  refine ⟨⟨.mark .endOfInput, [], ⟨file, last.position, last.position⟩⟩, rfl, ?_⟩
  unfold endTokens
  cases last.inLine <;> simp [resolveFrom, Token.isMark]

theorem terminalsAfter_marksAt
    {marks : List Mark}
    (areLayout : ∀ mark ∈ marks, mark.isLayout = true)
    (before : Option Token)
    (token : Token) :
    terminalsAfter before (marksAt token marks) = marks.map .mark := by
  induction marks generalizing before with
  | nil => rfl
  | cons mark marks hypothesis =>
    have noIndex : Terminal.ofToken before ⟨.mark mark, [], token.span.atStart⟩ = .mark mark := by
      have isLayout := areLayout mark List.mem_cons_self
      cases mark <;> first | rfl | cases isLayout
    have later := hypothesis
      (fun other member => areLayout other (List.mem_cons_of_mem _ member))
      (some ⟨.mark mark, [], token.span.atStart⟩)
    rw [List.map_cons, ← noIndex, ← later]
    rfl

/-- What the layout puts out ends in the only end of input. -/
theorem endsOnce_of_run
    {indents : Indents} {state last : State} {tokens out : List Token}
    (run : Run indents state tokens out last)
    {final : Token}
    (isEnd : final.symbol = .mark .endOfInput)
    (inner : List Context) :
    EndsOnce (out ++ (marksAt final (closeAll inner) ++ [final])) := by
  refine ⟨out ++ marksAt final (closeAll inner), final, by simp, ?_, ?_⟩
  · rw [Token.isMark, isEnd]
    rfl
  · intro token member
    have noEnd : token.symbol ≠ .mark .endOfInput := by
      rcases List.mem_append.mp member with inOut | inMarks
      · exact run.symbol_ne_endOfInput token inOut
      · obtain ⟨mark, closes, rfl⟩ := List.mem_map.mp inMarks
        have isLayout := isLayout_of_mem_closeAll closes
        rintro ⟨⟩
        cases isLayout
    simpa [Token.isMark] using noEnd

theorem terminals_closed
    (out : List Token)
    {final : Token}
    (isEnd : final.symbol = .mark .endOfInput)
    (inner : List Context) :
    terminals (out ++ (marksAt final (closeAll inner) ++ [final])) =
      terminals out ++ (closeAll inner).map .mark ++ [Terminal.mark .endOfInput] := by
  have isFinal (before : Option Token) : Terminal.ofToken before final = .mark .endOfInput :=
    (Terminal.eq_mark_iff Mark.noConfusion).mpr ((Terminal.ofToken_toSymbol ..).trans isEnd)
  rw [terminals, terminalsAfter_append, terminalsAfter_append,
    terminalsAfter_marksAt fun _ => isLayout_of_mem_closeAll]
  simp [terminals, terminalsAfter, isFinal]

/-- What is laid out is read as the tree that it is derived as, unless that needs more room than
there is. -/
theorem Program.ofSource_of_derived
    {file : Option Text} {source : Text} {tokens : List Token} {levels : Nat} {stmts : List Stmt}
    (laidOut : layoutTokens file source = .ok tokens)
    (endsOnce : EndsOnce tokens)
    (derived : ProgramOf (Within levels) (terminals tokens) stmts) :
    (∃ program, Program.ofSource file source = .ok program ∧
      Stmt.bareAll program.statements = stmts) ∨
    nestingRoom < levels ∧
      ∃ fault, Program.ofSource file source = .error (.fault fault) ∧ Reading.TooDeep fault := by
  have readTokens : Program.ofSource file source = Failure.lift (Program.ofTokens tokens) := by
    unfold Program.ofSource
    rw [laidOut]
    rfl
  rw [readTokens]
  rcases Program.ofTokens_of_derived endsOnce derived with
    ⟨program, read, same⟩ | ⟨tooDeep, fault, failed, isTooDeep⟩
  · exact .inl ⟨program, congrArg Failure.lift read, same⟩
  · exact .inr ⟨tooDeep, fault, congrArg Failure.lift failed, isTooDeep⟩

/-- A source is read as the statements that its layout is derived as, unless these need more room
than there is. -/
theorem Program.ofSource_of_run
    {file : Option Text} {source : Text} {tokens out : List Token} {indents : List (Nat × Nat)}
    {last : Reader} {state : State} {stack : Stack} {levels : Nat} {stmts : List Stmt}
    (passage : Passage file .initial source tokens indents last [])
    (run : Run [] .initial tokens out state)
    (isStack : state.stack = some stack)
    (derived : Statements (Within levels)
      (terminals out ++ (closeAll stack.inner).map .mark) stmts) :
    (∃ program, Program.ofSource file source = .ok program ∧
      Stmt.bareAll program.statements = stmts) ∨
    nestingRoom < levels ∧
      ∃ fault, Program.ofSource file source = .error (.fault fault) ∧ Reading.TooDeep fault := by
  obtain ⟨final, isEnd, closed⟩ := resolveFrom_endTokens [] state file last
  rw [isStack] at closed
  have laidOut := layoutTokens_eq_of_passage passage
  rw [resolve, run.resolveFrom_eq, closed] at laidOut
  have program := ProgramOf.statements derived
  rw [← terminals_closed out isEnd] at program
  exact Program.ofSource_of_derived laidOut (endsOnce_of_run run isEnd _) program

end Offside
