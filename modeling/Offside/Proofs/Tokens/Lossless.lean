import Mathlib.Data.List.Induction
import Offside.Proofs.Tokens.Passage

namespace Offside

/-!
# Nothing of a source is lost in its tokens

The tokens of an accepted source stand in order and apart, each carries the text that it
covers, and its ends are the places of that text.  What stands between two tokens are blanks,
comments and empty lines, and every other line is closed by one newline token.
-/

variable {token : Token}

namespace Text

/-- The part of a text from one offset up to another. -/
def slice (text : Text) (start stop : Nat) : Text :=
  (text.take stop).drop start

theorem slice_append (first second third : Text) :
    (first ++ second ++ third).slice first.length (first.length + second.length) = second := by
  unfold slice
  rw [← List.length_append, List.take_left, List.drop_left]

end Text

namespace Position

/-- The place of an offset in a text: its line counts the line feeds before it, and its column
the code points since the last of them. -/
def within (text : Text) (offset : Nat) : Position where
  line := 1 + (text.take offset).count (.scalar '\n')
  column := 1 + ((text.take offset).reverse.takeWhile (· != .scalar '\n')).length
  offset := offset

theorem origin_advanceBy (text : Text) :
    origin.advanceBy text = within text text.length := by
  unfold within
  rw [List.take_length]
  induction text using List.reverseRecOn with
  | nil => rfl
  | append_singleton text code hypothesis =>
    rw [advanceBy_append, hypothesis, advanceBy_cons, advanceBy_nil, advance]
    split
    · next isNewline =>
        subst isNewline
        simp [Nat.add_assoc]
    · next notNewline =>
        simp [notNewline]
        omega

theorem within_append (first second : Text) :
    within (first ++ second) first.length = origin.advanceBy first := by
  rw [origin_advanceBy]
  unfold within
  rw [List.take_left, List.take_length]

theorem origin_advanceBy_take {text : Text} {offset : Nat} (inside : offset ≤ text.length) :
    origin.advanceBy (text.take offset) = within text offset := by
  have split := within_append (text.take offset) (text.drop offset)
  rw [List.take_append_drop, List.length_take_of_le inside] at split
  exact split.symm

end Position

/-- Whether a token stands for a piece of text and not for the end of a line or of the input. -/
def Token.isVisible (token : Token) : Bool :=
  !token.isMark .newline && !token.isMark .endOfInput

/-- What may stand between two tokens: blanks, comments up to the end of their line, and line
feeds. -/
inductive Filler : Text → Prop where
  | nil : Filler []
  | blank
      {code : CodePoint} {rest : Text} :
      TokenStream.isBlank code = true →
      Filler rest →
      Filler (code :: rest)
  | comment
      {body rest : Text} :
      (∀ code ∈ body, code ≠ .scalar '\n') →
      (∀ code, rest.head? = some code → code = .scalar '\n') →
      Filler rest →
      Filler (.scalar '#' :: (body ++ rest))
  | lineFeed
      {rest : Text} :
      Filler rest →
      Filler (.scalar '\n' :: rest)

/-- A line is closed once: of its tokens exactly one is a newline, and only the end of input
may follow that one. -/
def ClosedOnce (line : Nat) (tokens : List Token) : Prop :=
  ∃ earlier newline later, tokens = earlier ++ newline :: later ∧
    newline.symbol = .mark .newline ∧ newline.span.start.line = line ∧
    (∀ token ∈ earlier, token.span.start.line = line → token.symbol ≠ .mark .newline) ∧
    ∀ token ∈ later, token.span.start.line = line → token.symbol = .mark .endOfInput

/-- Tokens that keep everything of a source and say exactly where it stands. -/
structure Lossless (source : Text) (tokens : List Token) : Prop where
  /-- Spans do not run backwards. -/
  forward : ∀ token ∈ tokens, token.span.start.offset ≤ token.span.stop.offset
  /-- Spans stand in order and apart. -/
  ordered : tokens.Pairwise fun first second =>
    first.span.stop.offset ≤ second.span.start.offset
  /-- A token carries the text that it covers. -/
  lexemes : ∀ token ∈ tokens, token.isVisible = true →
    token.lexeme ≠ [] ∧
      token.lexeme = source.slice token.span.start.offset token.span.stop.offset
  /-- Nothing but filler stands before the first token. -/
  lead : ∀ first rest, tokens = first :: rest →
    Filler (source.slice 0 first.span.start.offset)
  /-- Nothing but filler stands between two tokens. -/
  gaps : ∀ earlier first second later, tokens = earlier ++ first :: second :: later →
    Filler (source.slice first.span.stop.offset second.span.start.offset)
  /-- A line feed is covered by a newline token or ends a line without tokens. -/
  lineFeeds : ∀ offset, source[offset]? = some (.scalar '\n') →
    (∃ newline ∈ tokens, newline.symbol = .mark .newline ∧
      newline.span.start.offset = offset ∧ newline.span.stop.offset = offset + 1) ∨
    ∀ token ∈ tokens, token.isVisible = true →
      token.span.start.line ≠ (Position.within source offset).line
  /-- A line with a token has one newline, after its last token. -/
  lines : ∀ token ∈ tokens, token.isVisible = true → ClosedOnce token.span.start.line tokens
  /-- The end of input comes last, at the end of the source. -/
  ending : ∃ earlier final, tokens = earlier ++ [final] ∧
    final.symbol = .mark .endOfInput ∧ final.span.start.offset = source.length ∧
    final.span.stop.offset = source.length ∧
    ∀ token ∈ earlier, token.symbol ≠ .mark .endOfInput
  /-- Both ends of a span are the places of their offsets. -/
  places : ∀ token ∈ tokens,
    token.span.start = Position.within source token.span.start.offset ∧
      token.span.stop = Position.within source token.span.stop.offset

/-- Tokens laid over a text, of which a part is passed: filler and the piece of a token in
turn. -/
inductive Tiles : Text → Text → List Token → Prop where
  | nil {passed : Text} : Tiles passed [] []
  | cons
      {passed gap piece left : Text} {token : Token} {tokens : List Token} :
      Filler gap →
      token.span.start = Position.origin.advanceBy (passed ++ gap) →
      token.span.stop = Position.origin.advanceBy (passed ++ gap ++ piece) →
      (token.isVisible = true → token.lexeme = piece ∧ piece ≠ []) →
      Tiles (passed ++ gap ++ piece) left tokens →
      Tiles passed (gap ++ piece ++ left) (token :: tokens)

namespace Position

@[simp] theorem origin_advanceBy_offset (text : Text) :
    (origin.advanceBy text).offset = text.length := by
  rw [origin_advanceBy]
  rfl

theorem line_le_advance (position : Position) (code : CodePoint) :
    position.line ≤ (position.advance code).line := by
  unfold advance
  split
  · exact Nat.le_succ _
  · exact Nat.le_refl _

theorem advance_newline_line (position : Position) :
    (position.advance (.scalar '\n')).line = position.line + 1 :=
  rfl

theorem line_le_advanceBy (position : Position) (text : Text) :
    position.line ≤ (position.advanceBy text).line := by
  induction text generalizing position with
  | nil => exact Nat.le_refl _
  | cons code text hypothesis =>
    exact Nat.le_trans (position.line_le_advance code) (hypothesis _)

theorem advanceBy_offset (position : Position) (text : Text) :
    (position.advanceBy text).offset = position.offset + text.length := by
  induction text generalizing position with
  | nil => rfl
  | cons code text hypothesis =>
    rw [advanceBy_cons, hypothesis, List.length_cons, advance]
    split <;> simp only <;> omega

/-- Text without a line feed does not leave its line. -/
theorem advanceBy_line
    {text : Text}
    (inLine : ∀ code ∈ text, code ≠ .scalar '\n')
    (position : Position) :
    (position.advanceBy text).line = position.line := by
  induction text generalizing position with
  | nil => rfl
  | cons code text hypothesis =>
    rw [List.forall_mem_cons] at inLine
    rw [advanceBy_cons, hypothesis inLine.2, advance, if_neg inLine.1]

end Position

namespace Tiles

open Position

variable {passed left : Text} {tokens : List Token}

/-- A token covers a piece of the text. -/
theorem located (tiles : Tiles passed left tokens) (member : token ∈ tokens) :
    ∃ before piece after, passed ++ left = before ++ piece ++ after ∧
      passed.length ≤ before.length ∧
      token.span.start = origin.advanceBy before ∧
      token.span.stop = origin.advanceBy (before ++ piece) ∧
      (token.isVisible = true → token.lexeme = piece ∧ piece ≠ []) := by
  induction tiles with
  | nil => cases member
  | @cons passed gap piece left first tokens _ starts stops lexeme _ hypothesis =>
    rcases List.mem_cons.mp member with rfl | inTokens
    · exact ⟨passed ++ gap, piece, left, by simp, by simp, starts, stops, lexeme⟩
    · obtain ⟨before, part, after, shape, bound, facts⟩ := hypothesis inTokens
      refine ⟨before, part, after, by simpa using shape, ?_, facts⟩
      rw [List.length_append, List.length_append] at bound
      omega

theorem ordered (tiles : Tiles passed left tokens) :
    tokens.Pairwise fun first second => first.span.stop.offset ≤ second.span.start.offset := by
  induction tiles with
  | nil => exact .nil
  | @cons passed gap piece left first tokens _ _ stops _ tail hypothesis =>
    refine .cons (fun second member => ?_) hypothesis
    obtain ⟨before, _, _, _, bound, starts, _⟩ := tail.located member
    rw [stops, starts, origin_advanceBy_offset, origin_advanceBy_offset]
    exact bound

theorem lead {first : Token} (tiles : Tiles passed left (first :: tokens)) :
    Filler ((passed ++ left).slice passed.length first.span.start.offset) := by
  cases tiles with
  | @cons _ gap piece left _ _ filler starts _ _ _ =>
    rw [starts, origin_advanceBy_offset, List.length_append, List.append_assoc gap,
      ← List.append_assoc, Text.slice_append]
    exact filler

theorem gaps
    (tiles : Tiles passed left tokens)
    {earlier later : List Token} {first second : Token}
    (shape : tokens = earlier ++ first :: second :: later) :
    Filler ((passed ++ left).slice first.span.stop.offset second.span.start.offset) := by
  induction tiles generalizing earlier with
  | nil => cases earlier <;> cases shape
  | @cons passed gap piece left token tokens _ _ stops _ tail hypothesis =>
    have whole : passed ++ (gap ++ piece ++ left) = passed ++ gap ++ piece ++ left := by simp
    rw [whole]
    cases earlier with
    | nil =>
      cases shape
      have filler := tail.lead
      rwa [stops, origin_advanceBy_offset]
    | cons other earlier => exact hypothesis (List.cons.inj shape).2

/-- A token right here covers a piece. -/
theorem here
    {piece : Text}
    (starts : token.span.start = origin.advanceBy passed)
    (stops : token.span.stop = origin.advanceBy (passed ++ piece))
    (lexeme : token.isVisible = true → token.lexeme = piece ∧ piece ≠ [])
    (tail : Tiles (passed ++ piece) left tokens) :
    Tiles passed (piece ++ left) (token :: tokens) := by
  rw [← List.append_nil passed] at starts stops tail
  exact .cons .nil starts stops lexeme tail

/-- Text that may stand in front of a filler may stand in front of the tokens. -/
theorem extend
    {front : Text}
    (extended : ∀ gap after, left = gap ++ after → Filler gap → Filler (front ++ gap))
    (nonempty : tokens ≠ [])
    (tiles : Tiles (passed ++ front) left tokens) :
    Tiles passed (front ++ left) tokens := by
  cases tiles with
  | nil => exact (nonempty rfl).elim
  | @cons _ gap piece left _ _ filler starts stops lexeme tail =>
    have regroup (more : Text) : passed ++ front ++ more = passed ++ (front ++ more) :=
      List.append_assoc ..
    rw [regroup] at starts stops tail
    have filled := extended gap (piece ++ left) (List.append_assoc ..) filler
    rw [show front ++ (gap ++ piece ++ left) = front ++ gap ++ piece ++ left by simp]
    exact .cons filled starts stops lexeme tail

end Tiles

open TokenStream

namespace TokenStream.Passage

variable {file : Option Text} {reader last : Reader} {text rest : Text} {tokens : List Token}
  {indents : List (Nat × Nat)}

/-- A passage lays its tokens over its text. -/
theorem tiles
    (passage : Passage file reader text tokens indents last rest)
    {passed : Text}
    (starts : reader.position = Position.origin.advanceBy passed)
    {more : List Token}
    (nonempty : more ≠ [])
    (later : ∀ passed, last.position = Position.origin.advanceBy passed → Tiles passed rest more) :
    Tiles passed text (tokens ++ more) := by
  have goesOn (known : List Token) : known ++ more ≠ [] := by simp [nonempty]
  have moved (piece : Text) {start : Position} {passed : Text}
      (atStart : start = Position.origin.advanceBy passed) :
      start.advanceBy piece = Position.origin.advanceBy (passed ++ piece) := by
    rw [atStart, Position.advanceBy_append]
  induction passage generalizing passed with
  | done => exact later passed starts
  | lineEnd _ hypothesis =>
    have next := moved [.scalar '\n'] starts
    exact .here starts next (fun visible => Bool.noConfusion visible)
      (hypothesis next later)
  | emptyLine _ hypothesis =>
    refine Tiles.extend (fun gap _ _ filler => ?_) (goesOn _)
      (hypothesis (moved [.scalar '\n'] starts) later)
    exact .lineFeed filler
  | @blank _ _ _ code _ _ _ _ _ isBlank _ hypothesis =>
    refine Tiles.extend (fun gap _ _ filler => ?_) (goesOn _)
      (hypothesis (moved [code] starts) later)
    exact .blank isBlank filler
  | @comment _ _ _ body text _ _ _ _ inBody atLineEnd _ hypothesis =>
    refine Tiles.extend (fun gap after shape filler => ?_) (goesOn _)
      (hypothesis (moved (.scalar '#' :: body) starts) later)
    refine .comment inBody (fun code isFirst => atLineEnd code ?_) filler
    rw [shape, List.head?_append, isFirst]
    rfl
  | @token start _ _ first tail _ _ _ _ _ _ _ _ hypothesis =>
    have next := moved (first :: tail) starts
    have others := hypothesis next later
    refine Tiles.here starts next ?_ others
    exact fun _ => ⟨rfl, List.cons_ne_nil _ _⟩

theorem endTokens_tiles
    {passed : Text}
    (starts : last.position = Position.origin.advanceBy passed) :
    Tiles passed [] (endTokens file last) := by
  -- An empty token at the end leaves everything passed.
  have empty {token : Token} {others : List Token}
      (isStart : token.span.start = last.position) (isStop : token.span.stop = last.position)
      (invisible : token.isVisible = false) (tail : Tiles passed [] others) :
      Tiles passed [] (token :: others) := by
    rw [starts] at isStart isStop
    rw [← List.append_nil passed] at isStop tail
    exact .here isStart isStop (fun visible => by simp [invisible] at visible) tail
  have final : Tiles passed [] [⟨.mark .endOfInput, [], ⟨file, last.position, last.position⟩⟩] :=
    empty rfl rfl rfl .nil
  unfold endTokens
  split
  · exact empty rfl rfl rfl final
  · exact final

/-- The tokens of a passage are newlines and symbols with a spelling. -/
theorem symbol_of_mem
    (passage : Passage file reader text tokens indents last rest)
    (member : token ∈ tokens) :
    token.symbol = .mark .newline ∨
      ∀ mark, token.symbol = .mark mark → mark.spelling? ≠ none := by
  induction passage with
  | done => cases member
  | lineEnd _ hypothesis =>
    rcases List.mem_cons.mp member with rfl | inTokens
    · exact .inl rfl
    · exact hypothesis inTokens
  | emptyLine _ hypothesis
  | blank _ _ hypothesis
  | comment _ _ _ hypothesis => exact hypothesis member
  | token scanned _ hypothesis =>
    rcases List.mem_cons.mp member with rfl | inTokens
    · exact .inr (scan_token scanned).2
    · exact hypothesis inTokens

theorem symbol_ne_endOfInput
    (passage : Passage file reader text tokens indents last rest)
    (member : token ∈ tokens) :
    token.symbol ≠ .mark .endOfInput := by
  intro same
  rcases passage.symbol_of_mem member with isNewline | spelled
  · rw [same] at isNewline
    cases isNewline
  · exact spelled _ same rfl

/-- No token stands on an earlier line than the one where the passage starts. -/
theorem line_le
    (passage : Passage file reader text tokens indents last rest)
    (member : token ∈ tokens ++ endTokens file last) :
    reader.position.line ≤ token.span.start.line := by
  induction passage with
  | @done reader =>
    have here : token.span.start = reader.position := by
      unfold endTokens at member
      split at member <;> simp at member
      · rcases member with rfl | rfl <;> rfl
      · rw [member]
    exact Nat.le_of_eq (congrArg Position.line here.symm)
  | lineEnd _ hypothesis =>
    rw [List.cons_append] at member
    rcases List.mem_cons.mp member with rfl | inTokens
    · exact Nat.le_refl _
    · exact Nat.le_of_succ_le (hypothesis inTokens)
  | emptyLine _ hypothesis => exact Nat.le_of_succ_le (hypothesis member)
  | blank _ _ hypothesis =>
    exact Nat.le_trans (Position.line_le_advance _ _) (hypothesis member)
  | comment inBody _ _ hypothesis =>
    have bound := hypothesis member
    rwa [Position.advanceBy_cons, Position.advanceBy_line inBody] at bound
  | token scanned _ hypothesis =>
    rw [List.cons_append] at member
    rcases List.mem_cons.mp member with rfl | inTokens
    · exact Nat.le_refl _
    · have bound := hypothesis inTokens
      rwa [Position.advanceBy_line (ne_newline_of_mem_scanned scanned)] at bound

end TokenStream.Passage

theorem ClosedOnce.cons
    {line : Nat} {tokens : List Token} {token : Token}
    (other : token.span.start.line = line → token.symbol ≠ .mark .newline)
    (closed : ClosedOnce line tokens) :
    ClosedOnce line (token :: tokens) := by
  obtain ⟨earlier, newline, later, rfl, isNewline, onLine, before, after⟩ := closed
  exact ⟨token :: earlier, newline, later, rfl, isNewline, onLine,
    List.forall_mem_cons.mpr ⟨other, before⟩, after⟩

theorem Token.isVisible_iff {token : Token} :
    token.isVisible = true ↔
      token.symbol ≠ .mark .newline ∧ token.symbol ≠ .mark .endOfInput := by
  simp [isVisible, isMark]

namespace TokenStream.Passage

variable {file : Option Text} {reader last : Reader} {text rest : Text} {tokens : List Token}
  {indents : List (Nat × Nat)}

theorem pieceToken_isVisible
    (file : Option Text)
    {signs : Bool} {first : CodePoint} {tail : Text} {symbol : Symbol} {size : Nat}
    (scanned : scan signs first tail = .token symbol size)
    (lexeme : Text)
    (start : Position) :
    (pieceToken file symbol lexeme start).isVisible = true := by
  have spelled := (scan_token scanned).2
  exact Token.isVisible_iff.mpr ⟨fun same => spelled _ same rfl, fun same => spelled _ same rfl⟩

/-- The line where the passage starts, if it has a token, and every line with a token in the
passage are closed once. -/
theorem closedOnce
    (passage : Passage file reader text tokens indents last rest)
    {line : Nat}
    (used : reader.inLine = true ∧ line = reader.position.line ∨
      ∃ token ∈ tokens ++ endTokens file last,
        token.isVisible = true ∧ token.span.start.line = line) :
    ClosedOnce line (tokens ++ endTokens file last) := by
  induction passage with
  | @done reader =>
    have inLine : reader.inLine = true ∧ line = reader.position.line := by
      rcases used with here | ⟨token, member, visible, _⟩
      · exact here
      · unfold endTokens at member
        split at member <;> simp at member
        · rcases member with rfl | rfl <;> cases visible
        · rw [member] at visible
          cases visible
    refine ⟨[], ⟨.mark .newline, [], ⟨file, reader.position, reader.position⟩⟩,
      [⟨.mark .endOfInput, [], ⟨file, reader.position, reader.position⟩⟩], ?_, rfl,
      inLine.2.symm, by simp, by simp⟩
    rw [endTokens, if_pos inLine.1]
  | @lineEnd start _ _ _ _ _ _ tail hypothesis =>
    by_cases here : line = start.line
    · refine ⟨[], newlineToken file start, _, rfl, rfl, here.symm, by simp, ?_⟩
      intro token member sameLine
      have bound := tail.line_le member
      rw [Position.advance_newline_line] at bound
      omega
    · refine ClosedOnce.cons (fun sameLine => (here sameLine.symm).elim) (hypothesis ?_)
      rcases used with ⟨_, sameLine⟩ | ⟨token, member, visible, onLine⟩
      · exact (here sameLine).elim
      · rcases List.mem_cons.mp member with rfl | inTokens
        · cases visible
        · exact .inr ⟨token, inTokens, visible, onLine⟩
  | emptyLine _ hypothesis =>
    rcases used with ⟨inLine, _⟩ | found
    · cases inLine
    · exact hypothesis (.inr found)
  | @blank start _ _ code _ _ _ _ _ isBlank _ hypothesis =>
    have sameLine : (start.advance code).line = start.line := by
      have notNewline : code ≠ .scalar '\n' := by
        rintro rfl
        cases isBlank
      rw [Position.advance, if_neg notNewline]
    exact hypothesis (used.imp_left fun here => ⟨here.1, here.2.trans sameLine.symm⟩)
  | @comment start _ _ body _ _ _ _ _ inBody _ _ hypothesis =>
    have sameLine : (start.advanceBy (.scalar '#' :: body)).line = start.line :=
      Position.advanceBy_line inBody _
    exact hypothesis (used.imp_left fun here => ⟨here.1, here.2.trans sameLine.symm⟩)
  | @token start _ _ first tail _ _ _ _ _ _ scanned _ hypothesis =>
    have sameLine : (start.advanceBy (first :: tail)).line = start.line :=
      Position.advanceBy_line (ne_newline_of_mem_scanned scanned) _
    have visible := pieceToken_isVisible file scanned (first :: tail) start
    refine ClosedOnce.cons (fun _ => (Token.isVisible_iff.mp visible).1) (hypothesis ?_)
    rcases used with ⟨_, here⟩ | ⟨token, member, isVisible, onLine⟩
    · exact .inl ⟨rfl, here.trans sameLine.symm⟩
    · rcases List.mem_cons.mp member with rfl | inTokens
      · exact .inl ⟨rfl, onLine.symm.trans sameLine.symm⟩
      · exact .inr ⟨token, inTokens, isVisible, onLine⟩

end TokenStream.Passage

/-- From a place on, a line feed is covered by a newline or ends a line without tokens; the
flag says whether the line of the place has one. -/
def FeedsCovered (start : Position) (inLine : Bool) (text : Text) (tokens : List Token) : Prop :=
  ∀ offset, text[offset]? = some (.scalar '\n') →
    (∃ newline ∈ tokens, newline.symbol = .mark .newline ∧
      newline.span.start.offset = start.offset + offset ∧
      newline.span.stop.offset = start.offset + offset + 1) ∨
    (inLine = true → (start.advanceBy (text.take offset)).line ≠ start.line) ∧
    ∀ token ∈ tokens, token.isVisible = true →
      token.span.start.line ≠ (start.advanceBy (text.take offset)).line

namespace FeedsCovered

variable {start : Position} {inLine : Bool} {piece text : Text} {tokens : List Token}

/-- A piece without line feeds may stand in front; in a line with a token it goes on in one. -/
theorem append
    (clean : ∀ code ∈ piece, code ≠ .scalar '\n')
    {inLineAfter : Bool}
    (stays : inLine = true → inLineAfter = true)
    (covered : FeedsCovered (start.advanceBy piece) inLineAfter text tokens) :
    FeedsCovered start inLine (piece ++ text) tokens := by
  intro offset isLineFeed
  have past : piece.length ≤ offset := by
    by_contra inside
    rw [List.getElem?_append_left (by omega)] at isLineFeed
    exact clean _ (List.mem_of_getElem? isLineFeed) rfl
  rw [List.getElem?_append_right past] at isLineFeed
  have place : start.advanceBy ((piece ++ text).take offset) =
      (start.advanceBy piece).advanceBy (text.take (offset - piece.length)) := by
    rw [List.take_append, List.take_of_length_le past, Position.advanceBy_append]
  rcases covered _ isLineFeed with ⟨newline, member, isNewline, starts, stops⟩ | ⟨otherLine, others⟩
  · rw [Position.advanceBy_offset] at starts stops
    exact .inl ⟨newline, member, isNewline, by omega, by omega⟩
  · rw [place]
    rw [Position.advanceBy_line clean] at otherLine
    exact .inr ⟨fun used => otherLine (stays used), others⟩

/-- A token on the line of the place may be added where the line counts as used. -/
theorem cons
    {token : Token}
    (onLine : token.isVisible = true → inLine = true ∧ token.span.start.line = start.line)
    (covered : FeedsCovered start inLine text tokens) :
    FeedsCovered start inLine text (token :: tokens) := by
  intro offset isLineFeed
  rcases covered offset isLineFeed with ⟨newline, member, facts⟩ | ⟨otherLine, others⟩
  · exact .inl ⟨newline, List.mem_cons_of_mem _ member, facts⟩
  · refine .inr ⟨otherLine, List.forall_mem_cons.mpr ⟨fun visible => ?_, others⟩⟩
    obtain ⟨used, sameLine⟩ := onLine visible
    rw [sameLine]
    exact (otherLine used).symm

/-- A line feed may stand in front if a newline covers it or its line has no token. -/
theorem lineFeed
    (here : (∃ newline ∈ tokens, newline.symbol = .mark .newline ∧
        newline.span.start.offset = start.offset ∧
        newline.span.stop.offset = start.offset + 1) ∨
      inLine = false ∧
        ∀ token ∈ tokens, token.isVisible = true → start.line < token.span.start.line)
    (covered : FeedsCovered (start.advance (.scalar '\n')) false text tokens) :
    FeedsCovered start inLine (.scalar '\n' :: text) tokens := by
  intro offset isLineFeed
  cases offset with
  | zero =>
    rcases here with found | ⟨unused, below⟩
    · exact .inl found
    · refine .inr ⟨fun used => by simp [unused] at used, fun token member visible => ?_⟩
      exact Nat.ne_of_gt (below token member visible)
  | succ offset =>
    rw [List.getElem?_cons_succ] at isLineFeed
    rw [List.take_succ_cons, Position.advanceBy_cons]
    rcases covered offset isLineFeed with
      ⟨newline, member, isNewline, starts, stops⟩ | ⟨_, others⟩
    · have next : (start.advance (.scalar '\n')).offset = start.offset + 1 := rfl
      rw [next] at starts stops
      exact .inl ⟨newline, member, isNewline, by omega, by omega⟩
    · have below := (start.advance (.scalar '\n')).line_le_advanceBy (text.take offset)
      rw [Position.advance_newline_line] at below
      exact .inr ⟨fun _ => Nat.ne_of_gt below, others⟩

end FeedsCovered

namespace TokenStream.Passage

variable {file : Option Text} {reader last : Reader} {text rest : Text} {tokens : List Token}
  {indents : List (Nat × Nat)}

theorem feedsCovered
    (passage : Passage file reader text tokens indents last rest)
    (atEnd : rest = []) :
    FeedsCovered reader.position reader.inLine text (tokens ++ endTokens file last) := by
  induction passage with
  | done =>
    intro offset isLineFeed
    rw [atEnd] at isLineFeed
    cases isLineFeed
  | @lineEnd start _ _ _ _ _ _ _ hypothesis =>
    have covered := hypothesis atEnd
    refine FeedsCovered.lineFeed (.inl ⟨newlineToken file start, List.mem_cons_self .., rfl, rfl,
      rfl⟩) (FeedsCovered.cons (fun visible => ?_) covered)
    cases visible
  | emptyLine tail hypothesis =>
    refine FeedsCovered.lineFeed (.inr ⟨rfl, fun token member _ => ?_⟩)
      (hypothesis atEnd)
    exact tail.line_le member
  | @blank _ _ _ code _ _ _ _ _ isBlank _ hypothesis =>
    have clean : ∀ other ∈ [code], other ≠ .scalar '\n' := by
      simp only [List.mem_singleton]
      rintro _ rfl rfl
      cases isBlank
    exact FeedsCovered.append clean id (hypothesis atEnd)
  | @comment _ _ _ body _ _ _ _ _ inBody _ _ hypothesis =>
    have clean : ∀ code ∈ .scalar '#' :: body, code ≠ .scalar '\n' := by simpa using inBody
    exact FeedsCovered.append clean id (hypothesis atEnd)
  | @token start inLine _ first tail _ _ _ _ _ _ scanned _ hypothesis =>
    have clean := ne_newline_of_mem_scanned scanned
    refine FeedsCovered.append clean (fun _ => rfl)
      (FeedsCovered.cons (fun _ => ⟨rfl, ?_⟩) (hypothesis atEnd))
    exact (Position.advanceBy_line clean start).symm

/-- The end of input comes last, at the end of the source, and nowhere else. -/
theorem ending (passage : Passage file .initial text tokens indents last []) :
    ∃ earlier final, tokens ++ endTokens file last = earlier ++ [final] ∧
      final.symbol = .mark .endOfInput ∧ final.span.start.offset = text.length ∧
      final.span.stop.offset = text.length ∧
      ∀ token ∈ earlier, token.symbol ≠ .mark .endOfInput := by
  obtain ⟨passed, rfl, position⟩ := passage.consumed
  have offset : last.position.offset = (passed ++ []).length := by
    rw [position, List.append_nil]
    exact Position.origin_advanceBy_offset passed
  have inTokens (token : Token) (member : token ∈ tokens) : token.symbol ≠ .mark .endOfInput :=
    passage.symbol_ne_endOfInput member
  let here : Span := ⟨file, last.position, last.position⟩
  unfold endTokens
  split
  · refine ⟨tokens ++ [⟨.mark .newline, [], here⟩], ⟨.mark .endOfInput, [], here⟩,
      by simp [here], rfl, offset, offset, ?_⟩
    rw [List.forall_mem_append]
    exact ⟨inTokens, by simp⟩
  · exact ⟨tokens, ⟨.mark .endOfInput, [], here⟩, rfl, rfl, offset, offset, inTokens⟩

end TokenStream.Passage

/-- The tokens of an accepted source keep everything of it. -/
theorem tokenize_lossless
    (file : Option Text)
    (source : Text)
    (accepted : (tokenize file source).failure = none) :
    Lossless source (tokenize file source).tokens := by
  obtain ⟨tokens, indents, last, passage⟩ := exists_passage_of_tokenize accepted
  rw [tokenize_eq_of_passage passage]
  have tiles : Tiles [] source (tokens ++ endTokens file last) :=
    passage.tiles rfl (by unfold endTokens; split <;> simp) fun _ => Passage.endTokens_tiles
  constructor
  case forward =>
    intro token member
    obtain ⟨before, piece, _, _, _, starts, stops, _⟩ := tiles.located member
    rw [starts, stops, Position.origin_advanceBy_offset, Position.origin_advanceBy_offset,
      List.length_append]
    exact Nat.le_add_right ..
  case ordered => exact tiles.ordered
  case lexemes =>
    intro token member visible
    obtain ⟨before, piece, after, shape, _, starts, stops, lexeme⟩ := tiles.located member
    obtain ⟨rfl, nonempty⟩ := lexeme visible
    rw [List.nil_append] at shape
    refine ⟨nonempty, ?_⟩
    rw [starts, stops, Position.origin_advanceBy_offset, Position.origin_advanceBy_offset, shape,
      List.length_append, Text.slice_append]
  case lead =>
    intro first rest shape
    rw [show (tokens ++ endTokens file last) = first :: rest from shape] at tiles
    exact tiles.lead
  case gaps =>
    intro earlier first second later shape
    exact tiles.gaps shape
  case lineFeeds =>
    intro offset isLineFeed
    have inside : offset ≤ source.length :=
      Nat.le_of_lt (List.getElem?_eq_some_iff.mp isLineFeed).1
    have fromStart : Reader.initial.position.offset + offset = offset := Nat.zero_add offset
    rw [← Position.origin_advanceBy_take inside]
    have covered := passage.feedsCovered rfl offset isLineFeed
    rw [fromStart] at covered
    exact covered.imp_right And.right
  case lines =>
    intro token member visible
    exact passage.closedOnce (.inr ⟨token, member, visible, rfl⟩)
  case ending => exact passage.ending
  case places =>
    intro token member
    obtain ⟨before, piece, after, shape, _, starts, stops, _⟩ := tiles.located member
    rw [List.nil_append] at shape
    rw [starts, stops, Position.origin_advanceBy_offset, Position.origin_advanceBy_offset, shape,
      Position.within_append, List.append_assoc, Position.within_append]
    exact ⟨rfl, rfl⟩

/-- A source with a comment, an empty line, escapes and no line feed at its end. -/
def spacedSource : Text :=
  Text.ofChars
    ['x', ' ', '=', ' ', '-', '1', '\t', '#', ' ', 'o', 'n', 'e', '\n', ' ', '\n', 'f', '[', '"',
     '\\', 'n', '"', ']', ' ', '#', '\x00']

theorem tokenize_lossless_spaced :
    (tokenize none spacedSource).failure = none ∧
      Lossless spacedSource (tokenize none spacedSource).tokens :=
  ⟨by decide +kernel, tokenize_lossless none spacedSource (by decide +kernel)⟩

end Offside
