import Offside.Proofs.Programs.Reading
import Offside.Proofs.Tokens.LineFeeds

namespace Offside

/-!
# Line feeds inside brackets

Inside a bracket the layout does not look at the column of a line, unless the line before lets
a block open.  So a line feed there may as well be a blank.  The one thing that it changes is
the reading of a sign: at the start of a line a sign belongs to the number behind it, and after
an operand of the same line it is an operator.
-/

open Layout TokenStream
variable {file : Option Text} {reader : Reader}

namespace Layout

variable {token : Token}

/-- The innermost context inside the program block. -/
def State.innermost? (state : State) : Option Context :=
  state.stack.bind (·.inner.head?)

/-- The symbols that end the layout in a state. -/
def State.closing (state : State) : List Symbol :=
  (closeAll ((state.stack.map (·.inner)).getD [])).map .mark ++ [.mark .endOfInput]

theorem State.exists_bracket {state : State} (inBracket : state.innermost? = some .bracket) :
    ∃ program outer, state.stack = some ⟨program, .bracket :: outer⟩ := by
  obtain ⟨⟨program, inner⟩, isStack, isFirst⟩ := Option.bind_eq_some_iff.mp inBracket
  obtain ⟨outer, rfl⟩ := List.head?_eq_some_iff.mp isFirst
  exact ⟨program, outer, isStack⟩

/-- Inside a bracket a token just arrives, unless the line before lets a block open. -/
theorem arrive_of_bracket
    {indents : Indents} {program : Nat} {outer : List Context} {previous : Option Symbol}
    {atLineStart : Bool}
    (noBlock : previous.any opensBlock = false)
    (token : Token) :
    arrive indents ⟨some ⟨program, .bracket :: outer⟩, previous, atLineStart⟩ token =
      some ([], ⟨program, .bracket :: outer⟩) := by
  unfold arrive
  simp only
  split
  · unfold startLine
    rw [noBlock]
    rfl
  · rfl

theorem passBracket_congr
    {other : Token}
    (sameSymbol : token.symbol = other.symbol)
    (stack : Stack) :
    passBracket stack token = passBracket stack other := by
  unfold passBracket
  rw [sameSymbol]

theorem passBracket_of_noBracket
    (noBracket : ∀ mark, token.symbol = .mark mark →
      mark.opensBracket = false ∧ mark.closesBracket = false)
    (stack : Stack) :
    passBracket stack token = ([], stack) := by
  unfold passBracket
  split
  · next mark isMark =>
      obtain ⟨opensNone, closesNone⟩ := noBracket mark isMark
      simp [opensNone, closesNone]
  · rfl

/-- Without records, the column of a line is that of its first token. -/
theorem aligned_nil (starts : Bool) (tokens : List Token) : Aligned [] starts tokens := by
  induction tokens generalizing starts with
  | nil => exact trivial
  | cons token rest hypothesis =>
    rw [Aligned]
    split
    · exact hypothesis true
    split
    · exact trivial
    · exact ⟨fun _ => rfl, hypothesis false⟩

namespace Run

variable {indents : Indents} {state last : State} {tokens others out rest : List Token}

/-- The layout runs alike with all records that are aligned with its tokens. -/
theorem of_aligned
    {records : Indents}
    (run : Run indents state tokens out last)
    (aligned : Aligned indents (state.stack.isNone || state.atLineStart) (tokens ++ rest))
    (alsoAligned : Aligned records (state.stack.isNone || state.atLineStart) (tokens ++ rest)) :
    Run records state tokens out last := by
  induction run with
  | done => exact .done
  | @newline state _ token _ _ isNewline _ hypothesis =>
    have starts : (state.stack.isNone || true) = true := Bool.or_true _
    rw [List.cons_append, Aligned, if_pos (by simp [Token.isMark, isNewline]), ← starts]
      at aligned alsoAligned
    exact .newline isNewline (hypothesis aligned alsoAligned)
  | @token state _ token _ _ _ _ noNewline noEnd arrives _ hypothesis =>
    rw [List.cons_append, Aligned, if_neg (by simpa [Token.isMark] using noNewline),
      if_neg (by simpa [Token.isMark] using noEnd)] at aligned alsoAligned
    refine .token noNewline noEnd ?_ (hypothesis aligned.2 alsoAligned.2)
    rw [← arrives]
    exact arrive_congr rfl fun starts => (alsoAligned.1 starts).trans (aligned.1 starts).symm

/-- Token lists that are alike are laid out alike. -/
theorem alike
    {starts : Bool}
    (run : Run [] state tokens out last)
    (alike : Alike starts tokens others)
    (knows : (state.stack.isNone || state.atLineStart) = true → starts = true) :
    ∃ result, Run [] state others result last ∧
      result.map (·.symbol) = out.map (·.symbol) := by
  induction run generalizing starts others with
  | done =>
    cases alike
    exact ⟨[], .done, rfl⟩
  | newline isNewline _ hypothesis =>
    cases alike with
    | newline _ isOther later =>
      obtain ⟨result, run, same⟩ := hypothesis later fun _ => rfl
      exact ⟨result, .newline isOther run, same⟩
    | visible _ notNewline => exact (notNewline isNewline).elim
  | @token state _ token _ _ _ stack noNewline noEnd arrives _ hypothesis =>
    cases alike with
    | newline isNewline => exact (noNewline isNewline).elim
    | @visible _ _ other _ _ sameSymbol _ sameColumn later =>
      obtain ⟨result, run, same⟩ := hypothesis later nofun
      have sameArrival : arrive [] state token = arrive [] state other :=
        arrive_congr sameSymbol fun starts => sameColumn (knows starts)
      rw [sameArrival] at arrives
      rw [passBracket_congr sameSymbol, sameSymbol] at run
      refine ⟨_, .token (sameSymbol ▸ noNewline) (sameSymbol ▸ noEnd) arrives run, ?_⟩
      simp only [List.map_append, List.map_cons, symbol_marksAt, same, sameSymbol,
        passBracket_congr sameSymbol]

/-- Newlines bring the layout to the start of a line. -/
theorem newlines (areNewlines : ∀ token ∈ tokens, token.symbol = .mark .newline) (state : State) :
    ∃ atLineStart, Run indents state tokens [] { state with atLineStart } := by
  induction tokens generalizing state with
  | nil => exact ⟨state.atLineStart, .done⟩
  | cons token tokens hypothesis =>
    obtain ⟨isNewline, later⟩ := List.forall_mem_cons.mp areNewlines
    obtain ⟨atLineStart, run⟩ := hypothesis later { state with atLineStart := true }
    exact ⟨atLineStart, .newline isNewline run⟩

/-- Inside a bracket it does not matter whether a line starts. -/
theorem in_bracket
    (run : Run [] state tokens out last)
    (inBracket : state.innermost? = some .bracket)
    (noBlock : state.previous.any opensBlock = false)
    (alike : Alike false tokens others)
    (atLineStart : Bool) :
    ∃ result final, Run [] { state with atLineStart } others result final ∧
      result.map (·.symbol) = out.map (·.symbol) ∧ final.closing = last.closing := by
  obtain ⟨program, outer, isStack⟩ := state.exists_bracket inBracket
  obtain ⟨stack, previous, started⟩ := state
  cases isStack
  cases run with
  | done =>
    cases alike
    exact ⟨[], _, .done, rfl, rfl⟩
  | newline isNewline run =>
    cases alike with
    | newline _ isOther later =>
      obtain ⟨result, run, same⟩ := run.alike later fun _ => rfl
      exact ⟨result, last, .newline isOther run, same, rfl⟩
    | visible _ notNewline => exact (notNewline isNewline).elim
  | @token _ _ token _ _ _ _ noNewline noEnd arrives run =>
    cases (arrive_of_bracket noBlock token).symm.trans arrives
    cases alike with
    | newline isNewline => exact (noNewline isNewline).elim
    | @visible _ _ other _ _ sameSymbol _ _ later =>
      obtain ⟨result, run, same⟩ := run.alike later nofun
      rw [passBracket_congr sameSymbol, sameSymbol] at run
      refine ⟨_, last, .token (sameSymbol ▸ noNewline) (sameSymbol ▸ noEnd)
        (arrive_of_bracket noBlock other) run, ?_, rfl⟩
      simp only [List.map_append, List.map_cons, symbol_marksAt, same, sameSymbol,
        passBracket_congr sameSymbol]

/-- Inside a bracket a token that is no bracket is put out as it is. -/
theorem first_in_bracket
    (run : Run [] state (token :: tokens) out last)
    (inBracket : state.innermost? = some .bracket)
    (noBlock : state.previous.any opensBlock = false)
    (visible : token.isVisible = true)
    (noBracket : ∀ mark, token.symbol = .mark mark →
      mark.opensBracket = false ∧ mark.closesBracket = false) :
    ∃ further, out = token :: further := by
  obtain ⟨program, outer, isStack⟩ := state.exists_bracket inBracket
  obtain ⟨stack, previous, started⟩ := state
  cases isStack
  cases run with
  | newline isNewline => exact ((Token.isVisible_iff.mp visible).1 isNewline).elim
  | token _ _ arrives run =>
    cases (arrive_of_bracket noBlock token).symm.trans arrives
    rw [passBracket_of_noBracket noBracket]
    exact ⟨_, rfl⟩

end Run

end Layout

/-- Behind a passage, a source that is laid out can be passed to its end. -/
theorem TokenStream.Passage.exists_rest
    {source rest : Text} {tokens laid : List Token}
    {indents : List (Nat × Nat)}
    (passage : Passage file .initial source tokens indents reader rest)
    (accepted : layoutTokens file source = .ok laid) :
    ∃ more records last, Passage file reader rest more records last [] := by
  have whole := Option.map_eq_none_iff.mp (failure_eq_none_of_layoutTokens accepted)
  rw [passage.readFrom_eq] at whole
  have read : (readFrom file reader rest).failure = none := whole
  obtain ⟨place, skip, inLine, signs⟩ := reader
  obtain rfl : skip = 0 := passage.skip_eq rfl
  exact exists_passage read

/-- Once a part of a source is read and laid out, the symbols of its layout are those of that
part and of what a run through the rest puts out. -/
theorem layoutTokens_symbols_iff
    {source rest : Text} {tokens out : List Token} {indents : List (Nat × Nat)}
    {state : State}
    (passage : Passage file .initial source tokens indents reader rest)
    (run : Run [] .initial tokens out state)
    (symbols : List Symbol) :
    (∃ laid, layoutTokens file source = .ok laid ∧ laid.map (·.symbol) = symbols) ↔
      ∃ more records last further final, Passage file reader rest more records last [] ∧
        Run [] state more further final ∧
        symbols = out.map (·.symbol) ++ (further.map (·.symbol) ++ final.closing) := by
  -- The layout of the whole source, once the rest of it has been passed.
  have laidOut {more : List Token} {records : List (Nat × Nat)} {last : Reader}
      (later : Passage file reader rest more records last []) :
      layoutTokens file source = Failure.lift
        ((resolveFrom [] state (more ++ endTokens file last)).map (out ++ ·)) := by
    rw [layoutTokens_eq_of_passage (passage.trans later), resolve, List.append_assoc,
      run.resolveFrom_eq]
  constructor
  · rintro ⟨laid, accepted, rfl⟩
    obtain ⟨more, records, last, later⟩ := passage.exists_rest accepted
    rw [laidOut later] at accepted
    cases resolved : resolveFrom [] state (more ++ endTokens file last) with
    | error fault =>
      rw [resolved] at accepted
      cases accepted
    | ok result =>
      rw [resolved] at accepted
      cases accepted
      obtain ⟨further, final, laterRun⟩ :=
        exists_run (fun _ member => later.symbol_ne_endOfInput member) resolved
      refine ⟨more, records, last, further, final, later, laterRun, ?_⟩
      obtain ⟨token, isEnd, closes⟩ := resolveFrom_endTokens [] final file last
      rw [laterRun.resolveFrom_eq, closes] at resolved
      cases resolved
      simp only [List.map_append, symbol_marksAt, State.closing, List.map_cons, List.map_nil,
        isEnd]
  · rintro ⟨more, records, last, further, final, later, laterRun, rfl⟩
    obtain ⟨token, isEnd, closes⟩ := resolveFrom_endTokens [] final file last
    rw [laidOut later, laterRun.resolveFrom_eq, closes]
    refine ⟨_, rfl, ?_⟩
    simp only [List.map_append, symbol_marksAt, State.closing, List.map_cons, List.map_nil, isEnd]

/-- Reading and laying out a text leads to a reader and to a state of the layout. -/
def Layout.Reaches (file : Option Text) (text : Text) (reader : Reader) (state : State) : Prop :=
  ∃ tokens indents out, Passage file .initial text tokens indents reader [] ∧
    Run indents .initial tokens out state

/-- What stands in front of a line feed in a source that is laid out can be read and laid out. -/
theorem Layout.exists_reaches
    {front back : Text} {laid : List Token}
    (accepted : layoutTokens file (front ++ .scalar '\n' :: back) = .ok laid) :
    ∃ reader state, Reaches file front reader state := by
  obtain ⟨_, _, _, whole⟩ := exists_passage_of_tokenize (failure_eq_none_of_layoutTokens accepted)
  obtain ⟨tokens, indents, reader, passage⟩ := whole.cut rfl rfl
  have overFeed := passage.before_newline back
  obtain ⟨more, records, last, later⟩ := overFeed.exists_rest accepted
  rw [layoutTokens_eq_of_passage (overFeed.trans later)] at accepted
  cases resolved : resolve [] (tokens ++ more ++ endTokens file last) with
  | error fault =>
    rw [resolved] at accepted
    cases accepted
  | ok result =>
    rw [resolve, List.append_assoc] at resolved
    obtain ⟨out, state, run⟩ :=
      exists_run (fun _ member => passage.symbol_ne_endOfInput member) resolved
    exact ⟨reader, state, tokens, indents, out, passage,
      run.of_aligned (aligned_nil _ _) passage.aligned_initial⟩

/-- Behind a line feed, the layout of a source goes on from the start of a line. -/
theorem Layout.Run.after_line_feed
    {last : Reader} {back : Text} {tokens out : List Token}
    {indents : List (Nat × Nat)} {state final : State}
    (run : Run [] state tokens out final)
    (passage : Passage file reader (.scalar '\n' :: back) tokens indents last []) :
    ∃ start more records atLineStart,
      Passage file ⟨start, 0, false, true⟩ back more records last [] ∧
        Run [] { state with atLineStart } more out final := by
  cases passage with
  | lineEnd passage =>
    cases run with
    | newline _ run => exact ⟨_, _, _, true, passage, run⟩
    | token noNewline => exact (noNewline rfl).elim
  | emptyLine passage => exact ⟨_, _, _, state.atLineStart, passage, run⟩
  | blank isBlank => cases isBlank
  | token scanned => exact ((visible_of_scanned scanned).1 rfl).elim

/-- Inside a bracket a line feed is laid out as a blank is, unless a number with a sign comes
next and an operand stands before the line feed in its line. -/
theorem line_feed_in_bracket_is_blank
    (file : Option Text)
    (front back : Text)
    (laid : List Token)
    (accepted : layoutTokens file (front ++ .scalar '\n' :: back) = .ok laid) :
    (∃ reader state, Layout.Reaches file front reader state) ∧
      ∀ reader state, Layout.Reaches file front reader state →
        ¬ Reader.initial.EndsInComment file front →
        state.innermost? = some .bracket →
        state.previous.any opensBlock = false →
        ((∃ other, layoutTokens file (front ++ .scalar ' ' :: back) = .ok other ∧
            other.map (·.symbol) = laid.map (·.symbol)) ↔
          ¬ (reader.signAllowed = false ∧
            Scan.startsSigned (back.dropWhile isBlank) = true)) := by
  refine ⟨Layout.exists_reaches accepted, ?_⟩
  rintro reader state ⟨tokens, indents, out, passage, run⟩ noComment inBracket noBlock
  have plainRun : Run [] .initial tokens out state :=
    run.of_aligned passage.aligned_initial (aligned_nil _ _)
  have overFeed := passage.before_newline back
  have parts : Parts (.scalar ' ' :: back) := .cons (by decide)
  have overBlank := passage.extend rfl parts (.inr noComment)
  obtain ⟨more, _, last, further, final, later, laterRun, symbols⟩ :=
    (layoutTokens_symbols_iff overFeed plainRun _).mp ⟨laid, accepted, rfl⟩
  obtain ⟨start, behind, _, started, fromStart, startRun⟩ := laterRun.after_line_feed later
  rw [symbols, layoutTokens_symbols_iff overBlank plainRun]
  obtain ⟨place, skip, inLine, signs⟩ := reader
  obtain rfl : skip = 0 := passage.skip_eq rfl
  constructor
  · rintro ⟨_, _, _, _, _, fromBlank, blankRun, same⟩ ⟨noSigns, signed⟩
    obtain ⟨number, _, rfl, visible, isNumber, noBracket⟩ := fromStart.first_of_signed rfl signed
    obtain ⟨operator, _, rfl, alsoVisible, isOperator, alsoNoBracket⟩ :=
      fromBlank.first_of_signed rfl signed
    obtain ⟨_, rfl⟩ := startRun.first_in_bracket inBracket noBlock visible noBracket
    obtain ⟨_, rfl⟩ := blankRun.first_in_bracket inBracket noBlock alsoVisible alsoNoBracket
    have sameSymbol : number.symbol = operator.symbol :=
      (List.cons.inj (List.append_cancel_left same)).1
    rw [← sameSymbol, isNumber] at isOperator
    cases isOperator.trans noSigns
  · intro unsigned
    have noNumber (noSigns : signs = false) :
        Scan.startsSigned (back.dropWhile isBlank) = false :=
      Bool.eq_false_iff.mpr fun signed => unsigned ⟨noSigns, signed⟩
    obtain ⟨newlines, others, records, _, moved, areNewlines, alike⟩ :=
      fromStart.continued rfl rfl (place.advance (.scalar ' ')) inLine signs noNumber
    obtain ⟨atLineStart, toStart⟩ := Run.newlines areNewlines state
    obtain ⟨result, _, resultRun, sameSymbols, sameClosing⟩ :=
      startRun.in_bracket inBracket noBlock alike atLineStart
    refine ⟨newlines ++ others, records, _, [] ++ result, _, .blank rfl moved,
      toStart.append resultRun, ?_⟩
    rw [List.nil_append, sameSymbols, sameClosing]

/-- An open array with one element. -/
def Layout.openArray : Text :=
  [.scalar '[', .scalar '1']

theorem Layout.reaches_openArray :
    Reaches none openArray ⟨⟨1, 3, 2⟩, 0, true, false⟩
      ⟨some ⟨1, [.bracket]⟩, some (.int 1), false⟩ := by
  have bracket : scan true (.scalar '[') ([] ++ [CodePoint.scalar '1']) =
      .token (.mark .openBracket) (([] : Text).length + 1) := by
    decide +kernel
  have number : scan true (.scalar '1') ([] ++ []) =
      .token (.int 1) (([] : Text).length + 1) := by
    decide +kernel
  exact ⟨_, _, _, .token bracket (.token number .done),
    .token (by decide) (by decide) rfl (.token (by decide) (by decide) rfl .done)⟩

theorem Layout.openArray_not_comment : ¬ Reader.initial.EndsInComment none openArray :=
  Reader.not_endsInComment (by decide)

/-- A line that starts with a comma goes on as well behind a blank. -/
theorem line_feed_in_bracket_is_blank_leadingComma :
    ∃ laid other, layoutTokens none (openArray ++ .scalar '\n' :: ", -2]") = .ok laid ∧
      layoutTokens none (openArray ++ .scalar ' ' :: ", -2]") = .ok other ∧
      other.map (·.symbol) = laid.map (·.symbol) := by
  have isOk : (layoutTokens none (openArray ++ .scalar '\n' :: ", -2]")).isOk = true := by
    decide +kernel
  cases accepted : layoutTokens none (openArray ++ .scalar '\n' :: ", -2]") with
  | error failure =>
    rw [accepted] at isOk
    cases isOk
  | ok laid =>
    have same := (line_feed_in_bracket_is_blank none openArray ", -2]" laid accepted).2 _ _
      Layout.reaches_openArray Layout.openArray_not_comment rfl rfl
    obtain ⟨other, laidOut, symbols⟩ := same.mpr fun signed => nomatch signed.2
    exact ⟨laid, other, rfl, laidOut, symbols⟩

/-- A number with a sign behind a line feed becomes an operator and a number behind a blank. -/
theorem signed_number_behind_line_feed :
    (∃ reader state, Reaches none openArray reader state ∧ state.innermost? = some .bracket ∧
      state.previous.any opensBlock = false) ∧
    ¬ Reader.initial.EndsInComment none openArray ∧
    (layoutTokens none (openArray ++ .scalar '\n' :: "-2]")).map (·.map (·.symbol)) =
      .ok [.mark .openBracket, .int 1, .int (-2), .mark .closeBracket, .mark .endOfInput] ∧
    (layoutTokens none (openArray ++ .scalar ' ' :: "-2]")).map (·.map (·.symbol)) =
      .ok [.mark .openBracket, .int 1, .mark .minus, .int 2, .mark .closeBracket,
        .mark .endOfInput] :=
  ⟨⟨_, _, Layout.reaches_openArray, rfl, rfl⟩, Layout.openArray_not_comment, by decide +kernel,
    by decide +kernel⟩

end Offside
