import Offside.Proofs.Tokens.Passage

namespace Offside

/-!
# Joining sources

The tokens of two sources that are joined by a line feed are the tokens of the first, those
of the second further down, and between them the newline of the first one's last line.
-/

namespace Position

/-- A place so many lines and code points further down. -/
def down (lines codes : Nat) (position : Position) : Position :=
  ⟨position.line + lines, position.column, position.offset + codes⟩

theorem advance_down (lines codes : Nat) (position : Position) (code : CodePoint) :
    (position.down lines codes).advance code = (position.advance code).down lines codes := by
  unfold advance down
  split <;> simp only [Position.mk.injEq, true_and] <;> omega

theorem advanceBy_down (lines codes : Nat) (position : Position) (text : Text) :
    (position.down lines codes).advanceBy text = (position.advanceBy text).down lines codes := by
  induction text generalizing position with
  | nil => rfl
  | cons code text hypothesis =>
    rw [advanceBy_cons, advanceBy_cons, advance_down, hypothesis]

/-- A line feed leads to the origin of what follows. -/
theorem advance_newline (position : Position) :
    position.advance (.scalar '\n') = origin.down position.line (position.offset + 1) := by
  simp [advance, origin, down, Nat.add_comm]

end Position

/-- A span further down. -/
def Span.down (lines codes : Nat) (span : Span) : Span :=
  ⟨span.file, span.start.down lines codes, span.stop.down lines codes⟩

/-- A token further down. -/
def Token.down (lines codes : Nat) (token : Token) : Token :=
  { token with span := token.span.down lines codes }

namespace TokenStream

/-- A reader further down. -/
def Reader.down (lines codes : Nat) (reader : Reader) : Reader :=
  { reader with position := reader.position.down lines codes }

/-- The newline token with which a line feed ends the line of a reader. -/
def closing (file : Option Text) (reader : Reader) : List Token :=
  if reader.inLine then [newlineToken file reader.position] else []

/-- The reader comes to a comment that goes on to the end of the text. -/
def Reader.EndsInComment (file : Option Text) (reader : Reader) (text : Text) : Prop :=
  ∃ tokens indents last body, Passage file reader text tokens indents last (.scalar '#' :: body) ∧
    ∀ code ∈ body, code ≠ .scalar '\n'

theorem Reader.not_endsInComment
    {file : Option Text} {reader : Reader} {text : Text}
    (noSign : .scalar '#' ∉ text) :
    ¬ reader.EndsInComment file text := by
  rintro ⟨_, _, _, body, passage, _⟩
  obtain ⟨passed, rfl, _⟩ := passage.consumed
  exact noSign (List.mem_append_right _ List.mem_cons_self)

theorem newlineToken_down (file : Option Text) (start : Position) (lines codes : Nat) :
    (newlineToken file start).down lines codes = newlineToken file (start.down lines codes) := by
  rw [newlineToken, newlineToken, Position.advance_down]
  rfl

theorem pieceToken_down
    (file : Option Text)
    (symbol : Symbol)
    (lexeme : Text)
    (start : Position)
    (lines codes : Nat) :
    (pieceToken file symbol lexeme start).down lines codes =
      pieceToken file symbol lexeme (start.down lines codes) := by
  rw [pieceToken, pieceToken, Position.advanceBy_down]
  rfl

theorem lineRecord_down (inLine : Bool) (start : Position) (lines codes : Nat) :
    (lineRecord inLine start).map (fun record => (record.1 + lines, record.2)) =
      lineRecord inLine (start.down lines codes) := by
  cases inLine <;> rfl

namespace Passage

variable {file : Option Text} {reader last : Reader} {text rest : Text} {tokens : List Token}
  {indents : List (Nat × Nat)}

/-- A passage to the end of a text leads to what is put behind the text, if that prolongs no token
and no comment. -/
theorem extend
    {more : Text}
    (passage : Passage file reader text tokens indents last rest)
    (atEnd : rest = [])
    (parts : Parts more)
    (uncommented : more.head? = some (.scalar '\n') ∨ ¬ reader.EndsInComment file text) :
    Passage file reader (text ++ more) tokens indents last more := by
  -- A comment further on is one that the reader comes to.
  have later {reader middle : Reader} {text between : Text} {tokens : List Token}
      {indents : List (Nat × Nat)}
      (uncommented : more.head? = some (.scalar '\n') ∨ ¬ reader.EndsInComment file text)
      (step : Passage file reader text tokens indents middle between) :
      more.head? = some (.scalar '\n') ∨ ¬ middle.EndsInComment file between := by
    refine uncommented.imp_right fun noComment => ?_
    rintro ⟨_, _, last, body, passage, inBody⟩
    exact noComment ⟨_, _, last, body, step.trans passage, inBody⟩
  induction passage with
  | done =>
    subst atEnd
    exact .done
  | lineEnd _ hypothesis =>
    exact .lineEnd (hypothesis atEnd (later uncommented (.lineEnd .done)))
  | emptyLine _ hypothesis =>
    exact .emptyLine (hypothesis atEnd (later uncommented (.emptyLine .done)))
  | blank isBlank _ hypothesis =>
    exact .blank isBlank (hypothesis atEnd (later uncommented (.blank isBlank .done)))
  | @comment _ _ _ body text _ _ _ _ inBody atLineEnd _ hypothesis =>
    rw [List.cons_append, List.append_assoc]
    refine .comment inBody (fun code first => ?_)
      (hypothesis atEnd (later uncommented (.comment inBody atLineEnd .done)))
    cases text with
    | nil =>
      rw [List.append_nil] at uncommented
      rcases uncommented with isNewline | noComment
      · exact Option.some.inj (first.symm.trans isNewline)
      · exact (noComment ⟨[], [], _, body, .done, inBody⟩).elim
    | cons => exact atLineEnd code first
  | token scanned _ hypothesis =>
    rw [List.cons_append, List.append_assoc]
    refine .token ?_ (hypothesis atEnd (later uncommented (.token scanned .done)))
    rw [← List.append_assoc]
    exact scan_append scanned parts

/-- A passage to the end of a source leads to a line feed behind it as well. -/
theorem before_newline (passage : Passage file reader text tokens indents last []) (more : Text) :
    Passage file reader (text ++ .scalar '\n' :: more) tokens indents last
      (.scalar '\n' :: more) :=
  passage.extend rfl (.cons (by decide)) (.inl rfl)

/-- A passage further down the same text reads the same tokens further down. -/
theorem down (passage : Passage file reader text tokens indents last rest) (lines codes : Nat) :
    Passage file (reader.down lines codes) text (tokens.map (·.down lines codes))
      (indents.map fun record => (record.1 + lines, record.2)) (last.down lines codes) rest := by
  induction passage with
  | done => exact .done
  | lineEnd _ hypothesis =>
    rw [Reader.down, ← Position.advance_down] at hypothesis
    rw [List.map_cons, newlineToken_down]
    exact .lineEnd hypothesis
  | emptyLine _ hypothesis =>
    rw [Reader.down, ← Position.advance_down] at hypothesis
    exact .emptyLine hypothesis
  | blank isBlank _ hypothesis =>
    rw [Reader.down, ← Position.advance_down] at hypothesis
    exact .blank isBlank hypothesis
  | comment inBody atLineEnd _ hypothesis =>
    rw [Reader.down, ← Position.advanceBy_down] at hypothesis
    exact .comment inBody atLineEnd hypothesis
  | token scanned _ hypothesis =>
    rw [Reader.down, ← Position.advanceBy_down] at hypothesis
    rw [List.map_cons, List.map_append, pieceToken_down, lineRecord_down]
    exact .token scanned hypothesis

/-- The passage of two sources joined by a line feed. -/
theorem join
    {first second : Text} {moreTokens : List Token} {moreIndents : List (Nat × Nat)}
    {middle : Reader}
    (firstPassage : Passage file .initial first tokens indents middle [])
    (secondPassage : Passage file .initial second moreTokens moreIndents last []) :
    ∃ lines codes indents, Passage file .initial (first ++ .scalar '\n' :: second)
      (tokens ++ (closing file middle ++ moreTokens.map (·.down lines codes))) indents
      (last.down lines codes) [] := by
  have noSkip := firstPassage.skip_eq rfl
  obtain ⟨position, skip, inLine, signs⟩ := middle
  obtain rfl : skip = 0 := noSkip
  have later := secondPassage.down position.line (position.offset + 1)
  have across : Passage file ⟨position, 0, inLine, signs⟩ (.scalar '\n' :: second)
      (closing file ⟨position, 0, inLine, signs⟩ ++
        moreTokens.map (·.down position.line (position.offset + 1)))
      (moreIndents.map fun record => (record.1 + position.line, record.2))
      (last.down position.line (position.offset + 1)) [] := by
    cases inLine with
    | true => exact .lineEnd (position.advance_newline ▸ later)
    | false => exact .emptyLine (position.advance_newline ▸ later)
  exact ⟨_, _, _, (firstPassage.before_newline second).trans across⟩

end Passage

end TokenStream

end Offside
