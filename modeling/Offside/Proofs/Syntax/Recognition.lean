import Offside.Proofs.Syntax.Completeness
import Offside.Syntax.Program

namespace Offside

/-!
# Reading whole token lists

A token list that ends in its only end of input is read as a program exactly if its
terminals are a program of the grammar; the trees are the same apart from their spans.
-/

open Grammar

/-- A token list ends in the end of input and holds no other. -/
def EndsOnce (tokens : List Token) : Prop :=
  ∃ body last, tokens = body ++ [last] ∧ last.isMark .endOfInput = true ∧
    ∀ token ∈ body, token.isMark .endOfInput = false

/-- The terminals of tokens end once if the tokens do. -/
theorem ended_terminalsAfter
    (before : Option Token)
    {body : List Token} {last : Token}
    (isLast : last.isMark .endOfInput = true)
    (inside : ∀ token ∈ body, token.isMark .endOfInput = false) :
    Ended (terminalsAfter before (body ++ [last])) := by
  induction body generalizing before with
  | nil =>
    have isEnd : Terminal.ofToken before last = .mark .endOfInput :=
      (Terminal.eq_mark_iff Mark.noConfusion).mpr
        ((Terminal.ofToken_toSymbol ..).trans (of_decide_eq_true isLast))
    rw [List.nil_append, terminalsAfter, isEnd]
    exact .last
  | cons token body hypothesis =>
    have noEnd : Terminal.ofToken before token ≠ .mark .endOfInput := by
      intro isEnd
      have sameSymbol := (Terminal.eq_mark_iff Mark.noConfusion).mp isEnd
      rw [Terminal.ofToken_toSymbol] at sameSymbol
      have noMark := inside token List.mem_cons_self
      rw [Token.isMark, sameSymbol] at noMark
      cases noMark
    refine .cons noEnd (hypothesis _ fun token member => ?_)
    exact inside token (List.mem_cons_of_mem _ member)

/-- There are as many terminals as tokens. -/
theorem length_terminalsAfter (before : Option Token) (tokens : List Token) :
    (terminalsAfter before tokens).length = tokens.length := by
  induction tokens generalizing before with
  | nil => rfl
  | cons token tokens hypothesis =>
    rw [terminalsAfter, List.length_cons, List.length_cons, hypothesis]

/-- The terminals of two lists stand behind each other; the last token of the first list is what
the second one stands behind. -/
theorem terminalsAfter_append (before : Option Token) (first second : List Token) :
    terminalsAfter before (first ++ second) =
      terminalsAfter before first ++ terminalsAfter (first.getLast?.or before) second := by
  induction first generalizing before with
  | nil => rfl
  | cons token first hypothesis =>
    have sameLast : first.getLast?.or (some token) = (token :: first).getLast?.or before := by
      rw [List.getLast?_cons]
      cases first.getLast? <;> rfl
    rw [List.cons_append, terminalsAfter, hypothesis, sameLast]
    rfl

/-- Behind a token that ends no operand, a list has the terminals it has alone. -/
theorem terminalsAfter_eq_terminals
    {before : Option Token}
    (noOperand : ∀ last ∈ before, last.symbol.endsOperand = false)
    (tokens : List Token) :
    terminalsAfter before tokens = terminals tokens := by
  cases tokens with
  | nil => rfl
  | cons token tokens =>
    have noIndex : Terminal.ofToken before token = .symbol token.symbol := by
      cases before with
      | none => simp [Terminal.ofToken]
      | some last => simp [Terminal.ofToken, noOperand last rfl]
    rw [terminals, terminalsAfter, terminalsAfter, noIndex]
    simp [Terminal.ofToken]

/-- A whole token list is a place to read at, with a step for each of its tokens. -/
theorem EndsOnce.place {tokens : List Token} (endsOnce : EndsOnce tokens) :
    Place tokens.length (terminals tokens) := by
  obtain ⟨body, last, rfl, isLast, inside⟩ := endsOnce
  exact ⟨ended_terminalsAfter none isLast inside, Nat.le_of_eq (length_terminalsAfter ..)⟩

namespace Reading

/-- No `[` at the start of a token list is an index. -/
theorem loose_terminals (tokens : List Token) : Loose (terminals tokens) := by
  cases tokens with
  | nil => exact nofun
  | cons token tokens =>
    intro isIndex
    have isIndex := Option.some.inj isIndex
    simp [Terminal.ofToken] at isIndex

/-- What is read as a program is derived as one. -/
theorem program_takes
    {steps : Nat} {before : Word}
    (place : Place steps before)
    (loose : Loose before) :
    Gives (program steps) before
      (fun _ value => ProgramOf (Within nestingRoom) before (Stmt.bareAll value.statements))
      fun _ => True := by
  obtain ⟨terminal, rest, rfl⟩ := place.exists_cons
  refine .go .current fun start same => ?_
  split
  · next isEnd =>
      have isTerminal := (Terminal.eq_mark_iff Mark.noConfusion).mpr
        (same.symm.trans (of_decide_eq_true isEnd))
      subst isTerminal
      refine .span fun _ => ?_
      rw [place.ended.eq_nil]
      exact .pure .empty
  · refine .bind (statements_takes (phrase_sound steps nestingRoom) place loose
      Mark.noConfusion) ?_
    rintro _ all ⟨word, rest, split, rfl, ended, derived⟩
    refine .span fun _ => ?_
    rw [split, ended.eq_nil]
    exact .pure (.statements derived)

/-- What is derived as a program is read as it, unless there are not enough levels. -/
theorem program_gives
    {steps levels : Nat} {word : Word} {stmts : List Stmt}
    (derived : ProgramOf (Within levels) word stmts)
    (place : Place steps word) :
    Gives (program steps) word (fun _ value => Stmt.bareAll value.statements = stmts)
      fun fault => nestingRoom < levels ∧ TooDeep fault := by
  cases derived with
  | empty =>
    refine .bind .current ?_
    rintro _ start ⟨rfl, same⟩
    rw [show start.isMark .endOfInput = true by rw [Token.isMark, same]; rfl, if_pos rfl]
    refine .span fun _ => ?_
    exact .pure rfl
  | @statements word _ derived =>
    obtain ⟨terminal, rest, shape⟩ := place.exists_cons
    have noEnd : terminal ≠ .mark .endOfInput := by
      rintro rfl
      have isEnd := shape.trans (congrArg _ (Ended.eq_nil (shape ▸ place.ended)))
      exact Statements.ne_nil derived (List.append_cancel_right isEnd)
    rw [shape]
    refine .go .current fun start same => ?_
    have noMark : start.isMark .endOfInput = false := by
      refine decide_eq_false fun isEnd => noEnd ?_
      exact (Terminal.eq_mark_iff Mark.noConfusion).mpr (same.symm.trans isEnd)
    rw [noMark, if_neg Bool.false_ne_true, ← shape]
    refine .go (statements_gives (phrase_complete steps nestingRoom levels) derived
      .endOfInput Mark.noConfusion place) fun all same => ?_
    refine .span fun _ => ?_
    exact .pure same

end Reading

/-- Reading a token list starts with a cursor that sees all of it. -/
theorem Program.ofTokens_eq {tokens : List Token} (nonempty : tokens ≠ []) :
    ∃ cursor : Cursor, cursor.terminals = terminals tokens ∧
      Program.ofTokens tokens =
        (Reading.program tokens.length cursor).map Prod.fst := by
  obtain ⟨token, rest, rfl⟩ := List.exists_cons_of_ne_nil nonempty
  refine ⟨⟨none, token, rest⟩, rfl, ?_⟩
  show (Reading.program (token :: rest).length ⟨none, token, rest⟩ >>= fun pair =>
    pure pair.1) = _
  cases Reading.program (token :: rest).length ⟨none, token, rest⟩ <;> rfl

variable {tokens : List Token}

/-- A program that is read is derived within the nesting room. -/
theorem Program.derived_of_ofTokens
    (endsOnce : EndsOnce tokens)
    {program : Program}
    (read : Program.ofTokens tokens = .ok program) :
    ProgramOf (Within nestingRoom) (terminals tokens) (Stmt.bareAll program.statements) := by
  have place := endsOnce.place
  have nonempty : tokens ≠ [] := by
    rintro rfl
    exact place.ended.ne_nil rfl
  obtain ⟨cursor, shape, runs⟩ := Program.ofTokens_eq nonempty
  have takes := Reading.program_takes place (Reading.loose_terminals tokens) cursor shape
  rw [runs] at read
  cases result : Reading.program tokens.length cursor with
  | error => rw [result] at read; cases read
  | ok pair =>
    rw [result] at read takes
    cases read
    exact takes

/-- A derived program is read, unless it nests too deeply. -/
theorem Program.ofTokens_of_derived
    (endsOnce : EndsOnce tokens)
    {levels : Nat} {stmts : List Stmt}
    (derived : ProgramOf (Within levels) (terminals tokens) stmts) :
    (∃ program, Program.ofTokens tokens = .ok program ∧
        Stmt.bareAll program.statements = stmts) ∨
      nestingRoom < levels ∧ ∃ fault, Program.ofTokens tokens = .error fault ∧
        Reading.TooDeep fault := by
  have place := endsOnce.place
  have nonempty : tokens ≠ [] := by
    rintro rfl
    exact place.ended.ne_nil rfl
  obtain ⟨cursor, shape, runs⟩ := Program.ofTokens_eq nonempty
  have gives := Reading.program_gives derived place cursor shape
  rw [runs]
  cases result : Reading.program tokens.length cursor with
  | error fault =>
    rw [result] at gives
    exact .inr ⟨gives.1, fault, rfl, gives.2⟩
  | ok pair =>
    rw [result] at gives
    exact .inl ⟨pair.1, rfl, gives⟩

end Offside
