import Offside.Layout
import Offside.Proofs.Tokens.Lossless

namespace Offside

/-!
# Recorded indents

The records of a source hold the column of the first token of each line, and the layout asks
for the column of a line only at its first token.  So the layout of a source is the same with
and without them.
-/

namespace Layout

/-- At the start of each line, up to the end of input, the records give the column of the
token there. -/
def Aligned (indents : Indents) : Bool → List Token → Prop
  | _, [] => True
  | starts, token :: rest =>
    if token.isMark .newline then Aligned indents true rest
    else if token.isMark .endOfInput then True
    else (starts = true → indentOf indents token = token.span.start.column) ∧
      Aligned indents false rest

/-- Where a token arrives depends on its symbol and, at the start of a line, on the column of
the line. -/
theorem arrive_congr
    {indents others : Indents} {state : State} {token other : Token}
    (sameSymbol : token.symbol = other.symbol)
    (sameIndent : (state.stack.isNone || state.atLineStart) = true →
      indentOf indents token = indentOf others other) :
    arrive indents state token = arrive others state other := by
  obtain ⟨before, previous, atLineStart⟩ := state
  unfold arrive
  cases before with
  | none =>
    have same : indentOf indents token = indentOf others other := sameIndent rfl
    simp only [same]
  | some stack =>
    cases atLineStart with
    | false => rfl
    | true =>
      have same : indentOf indents token = indentOf others other := sameIndent rfl
      show startLine stack previous _ token = startLine stack previous _ other
      unfold startLine Token.isMark
      rw [same, sameSymbol]

theorem resolveFrom_eq_of_aligned
    {indents : Indents} {state : State} {tokens : List Token}
    (aligned : Aligned indents (state.stack.isNone || state.atLineStart) tokens) :
    resolveFrom indents state tokens = resolveFrom [] state tokens := by
  induction tokens generalizing state with
  | nil => rfl
  | cons token rest hypothesis =>
    rw [Aligned] at aligned
    rw [resolveFrom, resolveFrom]
    split
    · next isNewline =>
        rw [if_pos isNewline] at aligned
        exact hypothesis (by simpa using aligned)
    · next noNewline =>
        rw [if_neg noNewline] at aligned
        split
        · rfl
        next noEnd =>
        rw [if_neg noEnd] at aligned
        obtain ⟨here, later⟩ := aligned
        have sameRest (stack : Stack) :
            resolveFrom indents ⟨some stack, some token.symbol, false⟩ rest =
              resolveFrom [] ⟨some stack, some token.symbol, false⟩ rest :=
          hypothesis later
        have sameArrival : arrive indents state token = arrive [] state token :=
          arrive_congr rfl here
        cases arrives : arrive [] state token with
        | some pair => simp only [sameArrival, arrives, sameRest]
        | none =>
          -- Only at the start of a line a token is refused.
          have starts : (state.stack.isNone || state.atLineStart) = true := by
            obtain ⟨before, previous, atLineStart⟩ := state
            cases before with
            | none => rfl
            | some stack =>
              cases atLineStart with
              | true => rfl
              | false => cases arrives
          have sameIndent : indentOf indents token = indentOf [] token := here starts
          simp only [sameArrival, arrives, sameIndent]

end Layout

open Layout TokenStream

namespace TokenStream.Passage

variable {file : Option Text} {text rest : Text} {tokens : List Token}
  {indents : List (Nat × Nat)} {last : Reader}

/-- The lines that a passage records start after the line where it starts, if that has a
token. -/
theorem line_of_mem_indents
    {reader : Reader}
    (passage : Passage file reader text tokens indents last rest) :
    ∀ record ∈ indents,
      if reader.inLine then reader.position.line < record.1
      else reader.position.line ≤ record.1 := by
  induction passage with
  | done => simp
  | @lineEnd start _ _ _ _ _ _ _ hypothesis =>
    intro record member
    have later := hypothesis record member
    simp only [Bool.false_eq_true, if_false, if_true, Position.advance_newline_line] at later ⊢
    omega
  | @emptyLine start _ _ _ _ _ _ _ hypothesis =>
    intro record member
    have later := hypothesis record member
    simp only [Bool.false_eq_true, if_false, Position.advance_newline_line] at later ⊢
    omega
  | @blank start inLine _ code _ _ _ _ _ _ _ hypothesis =>
    intro record member
    have later := hypothesis record member
    have advances := start.line_le_advance code
    cases inLine <;> simp only [Bool.false_eq_true, if_false, if_true] at later ⊢ <;> omega
  | @comment start inLine _ body _ _ _ _ _ _ _ _ hypothesis =>
    intro record member
    have later := hypothesis record member
    have advances := start.line_le_advanceBy (.scalar '#' :: body)
    cases inLine <;> simp only [Bool.false_eq_true, if_false, if_true] at later ⊢ <;> omega
  | @token start inLine _ first tail _ _ _ _ _ _ _ _ hypothesis =>
    intro record member
    have advances := start.line_le_advanceBy (first :: tail)
    cases inLine with
    | true =>
      have later := hypothesis record member
      simp only [if_true] at later ⊢
      omega
    | false =>
      simp only [Bool.false_eq_true, if_false]
      rcases List.mem_cons.mp member with rfl | inRest
      · exact Nat.le_refl _
      · have later := hypothesis record inRest
        simp only [if_true] at later
        omega

theorem indentOf_first
    {earlier later : Indents} {token : Token}
    (before : ∀ record ∈ earlier, record.1 < token.span.start.line)
    (after : ∀ record ∈ later, token.span.start.line < record.1) :
    indentOf (earlier ++ (token.span.start.line, token.span.start.column) :: later) token =
      token.span.start.column := by
  have noneBefore : earlier.filter (·.1 == token.span.start.line) = [] := by
    refine List.filter_eq_nil_iff.mpr fun record member same => ?_
    have := before record member
    rw [beq_iff_eq] at same
    omega
  have noneAfter : later.filter (·.1 == token.span.start.line) = [] := by
    refine List.filter_eq_nil_iff.mpr fun record member same => ?_
    have := after record member
    rw [beq_iff_eq] at same
    omega
  simp [indentOf, noneBefore, noneAfter]

/-- The records of a source are aligned with its tokens. -/
theorem aligned
    {reader : Reader}
    (passage : Passage file reader text tokens indents last rest)
    (earlier : Indents)
    (before : ∀ record ∈ earlier,
      if reader.inLine then record.1 ≤ reader.position.line
      else record.1 < reader.position.line) :
    Aligned (earlier ++ indents) (!reader.inLine) (tokens ++ endTokens file last) := by
  induction passage generalizing earlier with
  | @done reader =>
    unfold endTokens
    cases reader.inLine <;> exact trivial
  | @lineEnd start _ _ _ _ _ _ _ hypothesis =>
    refine hypothesis earlier fun record member => ?_
    have := before record member
    simp only [Bool.false_eq_true, if_false, if_true, Position.advance_newline_line] at this ⊢
    omega
  | @emptyLine start _ _ _ _ _ _ _ hypothesis =>
    refine hypothesis earlier fun record member => ?_
    have := before record member
    simp only [Bool.false_eq_true, if_false, Position.advance_newline_line] at this ⊢
    omega
  | @blank start inLine _ code _ _ _ _ _ _ _ hypothesis =>
    refine hypothesis earlier fun record member => ?_
    have := before record member
    have advances := start.line_le_advance code
    cases inLine <;> simp only [Bool.false_eq_true, if_false, if_true] at this ⊢ <;> omega
  | @comment start inLine _ body _ _ _ _ _ _ _ _ hypothesis =>
    refine hypothesis earlier fun record member => ?_
    have := before record member
    have advances := start.line_le_advanceBy (.scalar '#' :: body)
    cases inLine <;> simp only [Bool.false_eq_true, if_false, if_true] at this ⊢ <;> omega
  | @token start inLine _ first tail text _ symbol tokens indents _ scanned passage
      hypothesis =>
      have sameLine := Position.advanceBy_line (ne_newline_of_mem_scanned scanned) start
      obtain ⟨noNewline, noEnd⟩ :=
        Token.isVisible_iff.mp (pieceToken_isVisible file scanned (first :: tail) start)
      rw [List.cons_append, Aligned, if_neg (by simpa [Token.isMark] using noNewline),
        if_neg (by simpa [Token.isMark] using noEnd)]
      constructor
      -- Earlier records are of earlier lines and later ones of later lines, so the record of
      -- this line is the one that is found.
      · intro starts
        cases inLine with
        | true => cases starts
        | false =>
          refine indentOf_first before ?_
          intro record member
          have later := passage.line_of_mem_indents record member
          rw [if_pos rfl, sameLine] at later
          exact later
      · rw [← List.append_assoc]
        refine hypothesis _ fun record member => ?_
        rw [if_pos rfl, sameLine]
        rcases List.mem_append.mp member with inEarlier | isHere
        · have := before record inEarlier
          cases inLine <;> simp only [Bool.false_eq_true, if_false, if_true] at this <;> omega
        · cases inLine with
          | true => cases isHere
          | false =>
            obtain rfl := List.mem_singleton.mp isHere
            exact Nat.le_refl _

/-- The records of a source are aligned with its tokens from the start. -/
theorem aligned_initial (passage : Passage file .initial text tokens indents last rest) :
    Aligned indents true (tokens ++ endTokens file last) :=
  passage.aligned [] (List.forall_mem_nil _)

end TokenStream.Passage

/-- What is laid out was read without failure. -/
theorem failure_eq_none_of_layoutTokens
    {file : Option Text} {source : Text} {laid : List Token}
    (accepted : layoutTokens file source = .ok laid) :
    (tokenize file source).failure = none := by
  unfold layoutTokens at accepted
  cases failed : (tokenize file source).failure with
  | none => rfl
  | some => simp [failed] at accepted

/-- The layout of a source needs only the columns of its tokens. -/
theorem layoutTokens_eq_of_passage
    {file : Option Text} {source : Text} {tokens : List Token} {indents : List (Nat × Nat)}
    {last : Reader}
    (passage : Passage file .initial source tokens indents last []) :
    layoutTokens file source =
      Failure.lift (resolve [] (tokens ++ endTokens file last)) := by
  simp only [layoutTokens, tokenize_eq_of_passage passage, resolve]
  rw [resolveFrom_eq_of_aligned passage.aligned_initial]

end Offside
