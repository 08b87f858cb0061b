import Offside.Proofs.Layout.Indents

namespace Offside

/-!
# The records of lines and the tokens agree

The columns at which lines start are recorded while a source is read, under a flag that says
whether the line has a token yet.  They say nothing that the tokens do not say: a line is
recorded exactly if a token starts on it, with the column of the first one.  So the layout of
the tokens is the same with the records and without them.
-/

/-- The first token on a line that stands for a piece of text. -/
def firstOn? (line : Nat) (tokens : List Token) : Option Token :=
  tokens.find? fun token => token.isVisible && token.span.start.line == line

section

variable {line : Nat} {token : Token} {tokens : List Token}

theorem firstOn?_cons_of_here
    (visible : token.isVisible = true)
    (here : token.span.start.line = line) :
    firstOn? line (token :: tokens) = some token := by
  simp [firstOn?, visible, here]

theorem firstOn?_cons_of_elsewhere (elsewhere : token.span.start.line ≠ line) :
    firstOn? line (token :: tokens) = firstOn? line tokens := by
  simp [firstOn?, elsewhere]

theorem firstOn?_cons_of_invisible (invisible : token.isVisible = false) :
    firstOn? line (token :: tokens) = firstOn? line tokens := by
  simp [firstOn?, invisible]

theorem firstOn?_eq_none_iff :
    firstOn? line tokens = none ↔
      ∀ token ∈ tokens, token.isVisible = true → token.span.start.line ≠ line := by
  simp [firstOn?]

end

namespace TokenStream.Passage

variable {file : Option Text} {reader last : Reader} {text rest : Text} {tokens : List Token}
  {indents : List (Nat × Nat)} {line column : Nat}

/-- A line that has no token before the passage is recorded in it exactly if the passage has a
token there, with the column of the first one. -/
theorem mem_indents_iff
    (passage : Passage file reader text tokens indents last rest)
    (fresh : reader.inLine = true → line ≠ reader.position.line) :
    (line, column) ∈ indents ↔
      ∃ token, firstOn? line tokens = some token ∧ token.span.start.column = column := by
  induction passage with
  | done => simp [firstOn?]
  | lineEnd _ hypothesis =>
    rw [firstOn?_cons_of_invisible rfl]
    exact hypothesis Bool.noConfusion
  | emptyLine _ hypothesis => exact hypothesis Bool.noConfusion
  | @blank start _ _ code _ _ _ _ _ blank _ hypothesis =>
    have sameLine : (start.advanceBy [code]).line = start.line := by
      refine Position.advanceBy_line (List.forall_mem_singleton.mpr ?_) start
      rintro rfl
      cases blank
    exact hypothesis (sameLine.symm ▸ fresh)
  | @comment start _ _ body _ _ _ _ _ inBody _ _ hypothesis =>
    have sameLine : (start.advanceBy (.scalar '#' :: body)).line = start.line :=
      Position.advanceBy_line (List.forall_mem_cons.mpr ⟨by decide, inBody⟩) start
    exact hypothesis (sameLine.symm ▸ fresh)
  | @token start inLine _ first tail _ _ symbol tokens indents _ scanned passage hypothesis =>
    have sameLine := Position.advanceBy_line (ne_newline_of_mem_scanned scanned) start
    by_cases here : line = start.line
    · subst here
      cases inLine with
      | true => exact (fresh rfl rfl).elim
      | false =>
        -- The token opens the line, and all records behind it are of later lines.
        have notLater : (start.line, column) ∉ indents := by
          intro member
          have later := passage.line_of_mem_indents _ member
          rw [if_pos rfl, sameLine] at later
          exact Nat.lt_irrefl _ later
        have isFirst :
            firstOn? start.line (pieceToken file symbol (first :: tail) start :: tokens) =
              some (pieceToken file symbol (first :: tail) start) :=
          firstOn?_cons_of_here (pieceToken_isVisible file scanned _ start) rfl
        rw [isFirst]
        simp [lineRecord, notLater, pieceToken, eq_comm]
    · have notHere : (line, column) ∉ lineRecord inLine start := by
        cases inLine <;> simp [lineRecord, here]
      rw [firstOn?_cons_of_elsewhere (Ne.symm here), ← hypothesis fun _ => sameLine ▸ here]
      simp [notHere]

end TokenStream.Passage

/-- The tokens at the end of a source stand for no piece of it. -/
theorem firstOn?_append_endTokens
    (line : Nat)
    (tokens : List Token)
    (file : Option Text)
    (last : TokenStream.Reader) :
    firstOn? line (tokens ++ TokenStream.endTokens file last) = firstOn? line tokens := by
  have atEnd : firstOn? line (TokenStream.endTokens file last) = none := by
    unfold TokenStream.endTokens
    split <;> rfl
  unfold firstOn? at atEnd ⊢
  rw [List.find?_append, atEnd, Option.or_none]

/-- In an accepted source exactly those lines are recorded on which a token starts that is
neither a newline nor the end of input, each with the column of the first such token.  So the
layout is the same, also in its failures, if the records are left out. -/
theorem records_are_first_columns
    {file : Option Text}
    {source : Text}
    (accepted : (tokenize file source).failure = none) :
    (∀ line, (∃ column, (line, column) ∈ (tokenize file source).indents) ↔
        ∃ token ∈ (tokenize file source).tokens,
          token.isVisible = true ∧ token.span.start.line = line) ∧
      (∀ line column, (line, column) ∈ (tokenize file source).indents →
        ∃ token, firstOn? line (tokenize file source).tokens = some token ∧
          token.span.start.column = column) ∧
      Layout.resolve (tokenize file source).indents (tokenize file source).tokens =
        Layout.resolve [] (tokenize file source).tokens := by
  obtain ⟨tokens, indents, last, passage⟩ := exists_passage_of_tokenize accepted
  rw [tokenize_eq_of_passage passage]
  have recorded (line column : Nat) :
      (line, column) ∈ indents ↔
        ∃ token, firstOn? line (tokens ++ TokenStream.endTokens file last) = some token ∧
          token.span.start.column = column := by
    rw [firstOn?_append_endTokens]
    exact passage.mem_indents_iff Bool.noConfusion
  refine ⟨fun line => ?_, fun line column => (recorded line column).mp, ?_⟩
  · calc (∃ column, (line, column) ∈ indents)
        ↔ firstOn? line (tokens ++ TokenStream.endTokens file last) ≠ none := by
          simp [recorded, Option.ne_none_iff_exists']
      _ ↔ _ := by simp [firstOn?_eq_none_iff]
  · exact Layout.resolveFrom_eq_of_aligned passage.aligned_initial

/-- A source with a blank line and a comment whose last line returns to no block. -/
def Layout.badReturn : Text :=
  "let a =\n    1\n# comment\n\n  b"

/-- Blank lines and comments are not recorded, and the last line is refused with the records and
without them. -/
theorem records_are_first_columns_badReturn :
    (tokenize none Layout.badReturn).failure = none ∧
      (tokenize none Layout.badReturn).indents = [(1, 1), (2, 5), (5, 3)] ∧
      (∃ token, firstOn? 5 (tokenize none Layout.badReturn).tokens = some token ∧
        token.span.start.column = 3) ∧
      (Layout.resolve (tokenize none Layout.badReturn).indents
        (tokenize none Layout.badReturn).tokens).isOk = false ∧
      Layout.resolve (tokenize none Layout.badReturn).indents
          (tokenize none Layout.badReturn).tokens =
        Layout.resolve [] (tokenize none Layout.badReturn).tokens := by
  have accepted : (tokenize none Layout.badReturn).failure = none := by decide +kernel
  have indents : (tokenize none Layout.badReturn).indents = [(1, 1), (2, 5), (5, 3)] := by
    decide +kernel
  obtain ⟨-, first, same⟩ := records_are_first_columns accepted
  exact ⟨accepted, indents, first 5 3 (by rw [indents]; decide), by decide +kernel, same⟩

end Offside
