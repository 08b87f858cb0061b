import Offside.Proofs.Tokens.Scanned

namespace Offside

/-!
# Passages of a source

A passage leads a reader from one place of a source to another and says which tokens and
which lines it reads on the way.  A source is read without failure exactly if a passage leads
from its start to its end, and passages that meet can be joined.
-/

namespace Position

@[simp] theorem advanceBy_nil (position : Position) : position.advanceBy [] = position :=
  rfl

@[simp] theorem advanceBy_cons (position : Position) (code : CodePoint) (text : Text) :
    position.advanceBy (code :: text) = (position.advance code).advanceBy text :=
  rfl

theorem advanceBy_append (position : Position) (first second : Text) :
    position.advanceBy (first ++ second) = (position.advanceBy first).advanceBy second :=
  List.foldl_append

end Position

namespace TokenStream

/-- The record of the line that a token opens. -/
def lineRecord (inLine : Bool) (start : Position) : List (Nat × Nat) :=
  if inLine then [] else [(start.line, start.column)]

/-- The newline token for a line feed. -/
def newlineToken (file : Option Text) (start : Position) : Token :=
  ⟨.mark .newline, [.scalar '\\', .scalar 'n'], ⟨file, start, start.advance (.scalar '\n')⟩⟩

/-- The token that a piece of text stands for. -/
def pieceToken (file : Option Text) (symbol : Symbol) (lexeme : Text) (start : Position) : Token :=
  ⟨symbol, lexeme, ⟨file, start, start.advanceBy lexeme⟩⟩

/-- The tokens at the end of a source: a newline if the last line has a token, and the end of
input. -/
def endTokens (file : Option Text) (last : Reader) : List Token :=
  let here : Span := ⟨file, last.position, last.position⟩
  if last.inLine then [⟨.mark .newline, [], here⟩, ⟨.mark .endOfInput, [], here⟩]
  else [⟨.mark .endOfInput, [], here⟩]

/-- A passage from a reader in front of a text to one in front of the rest of it, with the
tokens and the records of lines in between. -/
inductive Passage (file : Option Text) :
    Reader → Text → List Token → List (Nat × Nat) → Reader → Text → Prop where
  | done
      {reader : Reader} {text : Text} :
      Passage file reader text [] [] reader text
  | lineEnd
      {start : Position} {signs : Bool} {text rest : Text} {tokens : List Token}
      {indents : List (Nat × Nat)} {last : Reader} :
      Passage file ⟨start.advance (.scalar '\n'), 0, false, true⟩ text tokens indents last rest →
      Passage file ⟨start, 0, true, signs⟩ (.scalar '\n' :: text)
        (newlineToken file start :: tokens) indents last rest
  | emptyLine
      {start : Position} {signs : Bool} {text rest : Text} {tokens : List Token}
      {indents : List (Nat × Nat)} {last : Reader} :
      Passage file ⟨start.advance (.scalar '\n'), 0, false, true⟩ text tokens indents last rest →
      Passage file ⟨start, 0, false, signs⟩ (.scalar '\n' :: text) tokens indents last rest
  | blank
      {start : Position} {inLine signs : Bool} {code : CodePoint} {text rest : Text}
      {tokens : List Token} {indents : List (Nat × Nat)} {last : Reader} :
      isBlank code = true →
      Passage file ⟨start.advance code, 0, inLine, signs⟩ text tokens indents last rest →
      Passage file ⟨start, 0, inLine, signs⟩ (code :: text) tokens indents last rest
  | comment
      {start : Position} {inLine signs : Bool} {body text rest : Text}
      {tokens : List Token} {indents : List (Nat × Nat)} {last : Reader} :
      (∀ code ∈ body, code ≠ .scalar '\n') →
      (∀ code, text.head? = some code → code = .scalar '\n') →
      Passage file ⟨start.advanceBy (.scalar '#' :: body), 0, inLine, signs⟩ text tokens indents
        last rest →
      Passage file ⟨start, 0, inLine, signs⟩ (.scalar '#' :: (body ++ text)) tokens indents
        last rest
  | token
      {start : Position} {inLine signs : Bool} {first : CodePoint} {tail text rest : Text}
      {symbol : Symbol} {tokens : List Token} {indents : List (Nat × Nat)} {last : Reader} :
      scan signs first (tail ++ text) = .token symbol (tail.length + 1) →
      Passage file ⟨start.advanceBy (first :: tail), 0, true, !symbol.endsOperand⟩ text tokens
        indents last rest →
      Passage file ⟨start, 0, inLine, signs⟩ (first :: (tail ++ text))
        (pieceToken file symbol (first :: tail) start :: tokens)
        (lineRecord inLine start ++ indents) last rest

/-- The stream with what a passage reads in front. -/
def after (tokens : List Token) (indents : List (Nat × Nat)) (stream : TokenStream) :
    TokenStream :=
  ⟨tokens ++ stream.tokens, indents ++ stream.indents, stream.failure⟩

variable {file : Option Text}

theorem readFrom_skipped
    (file : Option Text)
    (skipped rest : Text)
    (start : Position)
    (inLine signs : Bool) :
    readFrom file ⟨start, skipped.length, inLine, signs⟩ (skipped ++ rest) =
      readFrom file ⟨start.advanceBy skipped, 0, inLine, signs⟩ rest := by
  induction skipped generalizing start with
  | nil => rfl
  | cons code skipped hypothesis =>
    rw [Position.advanceBy_cons, ← hypothesis]
    simp [readFrom]

theorem readFrom_token
    {first : CodePoint} {tail text : Text} {symbol : Symbol} {signs : Bool}
    (scanned : scan signs first (tail ++ text) = .token symbol (tail.length + 1))
    (file : Option Text)
    (start : Position)
    (inLine : Bool) :
    readFrom file ⟨start, 0, inLine, signs⟩ (first :: (tail ++ text)) =
      after [pieceToken file symbol (first :: tail) start] (lineRecord inLine start)
        (readFrom file ⟨start.advanceBy (first :: tail), 0, true, !symbol.endsOperand⟩ text) := by
  obtain ⟨notNewline, notBlank, notComment⟩ := visible_of_scanned scanned
  rw [readFrom]
  simp only [Nat.lt_irrefl, if_false, notNewline, notBlank, notComment, scanned,
    Nat.add_sub_cancel, Bool.false_eq_true, readFrom_skipped, List.take_left]
  cases inLine <;> rfl

theorem readFrom_comment
    {body text : Text}
    (inBody : ∀ code ∈ body, code ≠ .scalar '\n')
    (atLineEnd : ∀ code, text.head? = some code → code = .scalar '\n')
    (file : Option Text)
    (start : Position)
    (inLine signs : Bool) :
    readFrom file ⟨start, 0, inLine, signs⟩ (.scalar '#' :: (body ++ text)) =
      readFrom file ⟨start.advanceBy (.scalar '#' :: body), 0, inLine, signs⟩ text := by
  have size : lineRest (body ++ text) = body.length := by
    unfold lineRest
    rw [List.takeWhile_append_of_pos (by simpa using inBody)]
    cases text with
    | nil => simp
    | cons code text => simp [atLineEnd code rfl]
  have visible : isBlank (.scalar '#') = false := by decide
  rw [readFrom]
  simp [visible, size, readFrom_skipped]

namespace Passage

variable {reader middle last : Reader} {text between rest : Text} {tokens : List Token}
  {indents : List (Nat × Nat)}

theorem trans
    {moreTokens : List Token} {moreIndents : List (Nat × Nat)}
    (first : Passage file reader text tokens indents middle between)
    (second : Passage file middle between moreTokens moreIndents last rest) :
    Passage file reader text (tokens ++ moreTokens) (indents ++ moreIndents) last rest := by
  induction first with
  | done => exact second
  | lineEnd _ hypothesis => exact .lineEnd (hypothesis second)
  | emptyLine _ hypothesis => exact .emptyLine (hypothesis second)
  | blank isBlank _ hypothesis => exact .blank isBlank (hypothesis second)
  | comment inBody atLineEnd _ hypothesis =>
    exact .comment inBody atLineEnd (hypothesis second)
  | token scanned _ hypothesis =>
    rw [List.append_assoc]
    exact .token scanned (hypothesis second)

/-- Reading goes on after a passage. -/
theorem readFrom_eq (passage : Passage file reader text tokens indents last rest) :
    readFrom file reader text = after tokens indents (readFrom file last rest) := by
  induction passage with
  | done => rfl
  | lineEnd _ hypothesis =>
    rw [readFrom, hypothesis]
    rfl
  | emptyLine _ hypothesis =>
    rw [readFrom, hypothesis]
    rfl
  | @blank _ _ _ code _ _ _ _ _ isBlank _ hypothesis =>
    have notNewline : code ≠ .scalar '\n' := by
      rintro rfl
      cases isBlank
    rw [readFrom, ← hypothesis]
    simp [notNewline, isBlank]
  | comment inBody atLineEnd _ hypothesis =>
    rw [readFrom_comment inBody atLineEnd, hypothesis]
  | token scanned _ hypothesis =>
    rw [readFrom_token scanned, hypothesis]
    simp [after]

/-- A passage stops where its text leads. -/
theorem consumed (passage : Passage file reader text tokens indents last rest) :
    ∃ passed, text = passed ++ rest ∧ last.position = reader.position.advanceBy passed := by
  induction passage with
  | done => exact ⟨[], rfl, rfl⟩
  | lineEnd _ hypothesis
  | emptyLine _ hypothesis
  | blank _ _ hypothesis =>
    obtain ⟨passed, rfl, position⟩ := hypothesis
    exact ⟨_ :: passed, rfl, position⟩
  | @comment _ _ _ body _ _ _ _ _ _ _ _ hypothesis =>
    obtain ⟨passed, rfl, position⟩ := hypothesis
    refine ⟨.scalar '#' :: (body ++ passed), by simp, ?_⟩
    rw [position, ← List.cons_append, Position.advanceBy_append]
  | @token _ _ _ first tail _ _ _ _ _ _ _ _ hypothesis =>
    obtain ⟨passed, rfl, position⟩ := hypothesis
    refine ⟨first :: (tail ++ passed), by simp, ?_⟩
    rw [position, ← List.cons_append, Position.advanceBy_append]

theorem skip_eq
    (passage : Passage file reader text tokens indents last rest)
    (starts : reader.skip = 0) :
    last.skip = 0 := by
  induction passage with
  | done => exact starts
  | lineEnd _ hypothesis
  | emptyLine _ hypothesis
  | blank _ _ hypothesis
  | comment _ _ _ hypothesis
  | token _ _ hypothesis => exact hypothesis rfl

end Passage

theorem readFrom_nil (file : Option Text) (last : Reader) :
    readFrom file last [] = ⟨endTokens file last, [], none⟩ := by
  unfold readFrom closeLine endTokens
  cases last.inLine <;> rfl

/-- A text is what is left of its line and a text that starts at the line end. -/
theorem exists_lineRest (text : Text) :
    ∃ body rest, text = body ++ rest ∧ (∀ code ∈ body, code ≠ .scalar '\n') ∧
      ∀ code, rest.head? = some code → code = .scalar '\n' := by
  induction text with
  | nil => exact ⟨[], [], rfl, by simp, by simp⟩
  | cons code text hypothesis =>
    by_cases isNewline : code = .scalar '\n'
    · exact ⟨[], code :: text, rfl, by simp, by simpa using isNewline⟩
    · obtain ⟨body, rest, rfl, inBody, atLineEnd⟩ := hypothesis
      exact ⟨code :: body, rest, rfl, by simpa using ⟨isNewline, inBody⟩, atLineEnd⟩

/-- A reader can go no further: it is at the end of the text, or in front of a code point
that neither is passed over nor starts a token. -/
def Reader.Stops (reader : Reader) : Text → Prop
  | [] => True
  | code :: rest =>
    code ≠ .scalar '\n' ∧ isBlank code = false ∧ code ≠ .scalar '#' ∧
      ∀ symbol size, scan reader.signAllowed code rest ≠ .token symbol size

/-- From every place a passage leads to where the reader can go no further. -/
theorem exists_passage_to_stop
    (file : Option Text)
    (start : Position)
    (inLine signs : Bool)
    (text : Text) :
    ∃ tokens indents last rest,
      Passage file ⟨start, 0, inLine, signs⟩ text tokens indents last rest ∧ last.Stops rest := by
  induction size : text.length using Nat.strongRecOn generalizing start inLine signs text with
  | ind size hypothesis =>
    subst size
    cases text with
    | nil => exact ⟨[], [], _, [], .done, trivial⟩
    | cons code rest =>
      -- Every step passes at least the first code point.
      have later (passed : Text) {text : Text} (start : Position) (inLine signs : Bool)
          (shape : rest = passed ++ text) :=
        hypothesis text.length
          (by rw [shape, List.length_cons, List.length_append]; omega) start inLine signs text rfl
      by_cases isNewline : code = .scalar '\n'
      · subst isNewline
        obtain ⟨tokens, indents, last, rest, passage, stops⟩ := later [] _ _ _ rfl
        cases inLine with
        | true => exact ⟨_, _, last, rest, .lineEnd passage, stops⟩
        | false => exact ⟨_, _, last, rest, .emptyLine passage, stops⟩
      by_cases blank : isBlank code = true
      · obtain ⟨tokens, indents, last, rest, passage, stops⟩ := later [] _ _ _ rfl
        exact ⟨_, _, last, rest, .blank blank passage, stops⟩
      by_cases isComment : code = .scalar '#'
      · subst isComment
        obtain ⟨body, text, rfl, inBody, atLineEnd⟩ := exists_lineRest rest
        obtain ⟨tokens, indents, last, rest, passage, stops⟩ := later body _ _ _ rfl
        exact ⟨_, _, last, rest, .comment inBody atLineEnd passage, stops⟩
      by_cases isToken : ∃ symbol size, scan signs code rest = .token symbol size
      · obtain ⟨symbol, size, scanned⟩ := isToken
        obtain ⟨⟨tail, text, rfl, rfl, _⟩, _⟩ := scan_token scanned
        obtain ⟨tokens, indents, last, rest, passage, stops⟩ := later tail _ _ _ rfl
        exact ⟨_, _, last, rest, .token scanned passage, stops⟩
      · refine ⟨[], [], _, _, .done, isNewline, Bool.not_eq_true _ ▸ blank, isComment, ?_⟩
        exact fun symbol size scanned => isToken ⟨symbol, size, scanned⟩

/-- The failure of a reader in front of a code point that starts no token. -/
def Reader.failureAt (file : Option Text) (reader : Reader) (code : CodePoint) (rest : Text) :
    Option Failure :=
  match scan reader.signAllowed code rest with
  | .token _ _ => none
  | .misread misread =>
    some (.fault (.located (.lexical misread.cause)
      ⟨file, reader.position.advanceBy ((code :: rest).take misread.first),
        reader.position.advanceBy ((code :: rest).take misread.last)⟩))
  | .abort abort => some (.abort abort)

/-- Where a reader can go no further before the end of the text, it fails. -/
theorem readFrom_stop
    {reader : Reader} {code : CodePoint} {rest : Text}
    (fresh : reader.skip = 0)
    (stops : reader.Stops (code :: rest)) :
    readFrom file reader (code :: rest) = ⟨[], [], reader.failureAt file code rest⟩ := by
  obtain ⟨isNewline, blank, isComment, noToken⟩ := stops
  rw [readFrom, Reader.failureAt]
  simp only [fresh, Nat.lt_irrefl, if_false, isNewline, blank, isComment, Bool.false_eq_true]
  cases scanned : scan reader.signAllowed code rest with
  | token symbol size => exact (noToken symbol size scanned).elim
  | misread misread => rfl
  | abort abort => rfl

theorem Reader.failureAt_ne_none
    {reader : Reader} {code : CodePoint} {rest : Text}
    (stops : reader.Stops (code :: rest)) :
    reader.failureAt file code rest ≠ none := by
  obtain ⟨-, -, -, noToken⟩ := stops
  unfold failureAt
  cases scanned : scan reader.signAllowed code rest with
  | token symbol size => exact (noToken symbol size scanned).elim
  | misread misread => exact Option.some_ne_none _
  | abort abort => exact Option.some_ne_none _

/-- A reader that fails comes to a place where it can go no further. -/
theorem exists_stop_of_failure
    {start : Position} {inLine signs : Bool} {text : Text} {failure : Failure}
    (failed : (readFrom file ⟨start, 0, inLine, signs⟩ text).failure = some failure) :
    ∃ tokens indents last code rest,
      Passage file ⟨start, 0, inLine, signs⟩ text tokens indents last (code :: rest) ∧
        last.failureAt file code rest = some failure := by
  obtain ⟨tokens, indents, last, rest, passage, stops⟩ :=
    exists_passage_to_stop file start inLine signs text
  rw [passage.readFrom_eq] at failed
  cases rest with
  | nil => simp [after, readFrom_nil] at failed
  | cons code rest =>
    rw [readFrom_stop (passage.skip_eq rfl) stops] at failed
    exact ⟨tokens, indents, last, code, rest, passage, failed⟩

/-- What is read without failure is passed to its end. -/
theorem exists_passage
    {start : Position} {inLine signs : Bool} {text : Text}
    (accepted : (readFrom file ⟨start, 0, inLine, signs⟩ text).failure = none) :
    ∃ tokens indents last, Passage file ⟨start, 0, inLine, signs⟩ text tokens indents last [] := by
  obtain ⟨tokens, indents, last, rest, passage, stops⟩ :=
    exists_passage_to_stop file start inLine signs text
  cases rest with
  | nil => exact ⟨tokens, indents, last, passage⟩
  | cons code rest =>
    rw [passage.readFrom_eq, readFrom_stop (passage.skip_eq rfl) stops] at accepted
    exact (Reader.failureAt_ne_none stops accepted).elim

end TokenStream

open TokenStream

/-- A source is accepted exactly if a passage leads to its end; the passage gives the stream. -/
theorem tokenize_eq_of_passage
    {file : Option Text} {source : Text} {tokens : List Token} {indents : List (Nat × Nat)}
    {last : Reader}
    (passage : Passage file .initial source tokens indents last []) :
    tokenize file source = ⟨tokens ++ endTokens file last, indents, none⟩ := by
  unfold tokenize
  rw [passage.readFrom_eq, readFrom_nil]
  simp [after]

theorem exists_passage_of_tokenize
    {file : Option Text} {source : Text}
    (accepted : (tokenize file source).failure = none) :
    ∃ tokens indents last, Passage file .initial source tokens indents last [] :=
  exists_passage (Option.map_eq_none_iff.mp accepted)

end Offside
