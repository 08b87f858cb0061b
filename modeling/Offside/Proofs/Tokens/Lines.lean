import Offside.Proofs.Tokens.LineFeeds

namespace Offside

/-!
# Reading a source line by line

No token goes past a line feed, so a source is read line after line, and each line is read as if
it were the first.  Blanks and a comment at the end of a line, and lines of nothing else, give
no token.
-/

open TokenStream

theorem TokenStream.ne_newline_of_isBlank {code : CodePoint} (blank : isBlank code = true) :
    code ≠ .scalar '\n' := by
  rintro rfl
  cases blank

namespace Text

/-- Whether a text is made of blanks and a comment to its end, each of which may be missing. -/
def isIdle (text : Text) : Bool :=
  match text.dropWhile isBlank with
  | [] => true
  | code :: body => code == .scalar '#' && body.all (· != .scalar '\n')

theorem exists_of_isIdle {text : Text} (idle : text.isIdle = true) :
    ∃ blanks rest, text = blanks ++ rest ∧ (∀ code ∈ blanks, isBlank code = true) ∧
      (rest = [] ∨ ∃ body, rest = .scalar '#' :: body ∧ ∀ code ∈ body, code ≠ .scalar '\n') := by
  refine ⟨text.takeWhile isBlank, text.dropWhile isBlank, List.takeWhile_append_dropWhile.symm,
    fun code member => List.all_eq_true.mp List.all_takeWhile code member, ?_⟩
  unfold isIdle at idle
  split at idle
  · next isEnd => exact .inl isEnd
  · next code body shape =>
      rw [Bool.and_eq_true_iff, beq_iff_eq, List.all_eq_true] at idle
      obtain ⟨rfl, inBody⟩ := idle
      exact .inr ⟨body, shape, fun code member => bne_iff_ne.mp (inBody code member)⟩

theorem ne_newline_of_isIdle {text : Text} (idle : text.isIdle = true) :
    ∀ code ∈ text, code ≠ .scalar '\n' := by
  obtain ⟨blanks, rest, rfl, areBlank, ends⟩ := exists_of_isIdle idle
  refine List.forall_mem_append.mpr ⟨fun code member => ?_, ?_⟩
  · exact ne_newline_of_isBlank (areBlank code member)
  · rcases ends with rfl | ⟨body, rfl, inBody⟩
    · exact List.forall_mem_nil _
    · exact List.forall_mem_cons.mpr ⟨by decide, inBody⟩

/-- Idle text prolongs no token. -/
theorem parts_of_isIdle {text : Text} (idle : text.isIdle = true) : Parts text := by
  obtain ⟨blanks, rest, rfl, areBlank, ends⟩ := exists_of_isIdle idle
  cases blanks with
  | nil =>
    rcases ends with rfl | ⟨body, rfl, _⟩
    · exact .nil
    · exact .cons (by decide)
  | cons code blanks =>
    have isBlank := areBlank code List.mem_cons_self
    simp only [TokenStream.isBlank, Bool.or_eq_true, beq_iff_eq] at isBlank
    rcases isBlank with (rfl | rfl) | rfl <;> exact .cons (by decide)

/-- The pieces of a source between its line feeds hold no line feed. -/
theorem ne_newline_of_mem_splitOn {text line : Text} (member : line ∈ text.splitOn (.scalar '\n')) :
    ∀ code ∈ line, code ≠ .scalar '\n' := by
  induction text generalizing line with
  | nil =>
    rw [List.splitOn_nil, List.mem_singleton] at member
    subst member
    exact List.forall_mem_nil _
  | cons first text hypothesis =>
    rw [List.splitOn_cons_eq_if_modifyHead] at member
    split at member
    · rcases List.mem_cons.mp member with rfl | later
      · exact List.forall_mem_nil _
      · exact hypothesis later
    · next notFeed =>
        cases pieces : text.splitOn (.scalar '\n') with
        | nil => exact (List.splitOn_ne_nil _ _ pieces).elim
        | cons piece rest =>
          rw [pieces] at member hypothesis
          rcases List.mem_cons.mp member with rfl | later
          · refine List.forall_mem_cons.mpr ⟨?_, hypothesis List.mem_cons_self⟩
            exact fun isFeed => notFeed (beq_iff_eq.mpr isFeed)
          · exact hypothesis (List.mem_cons_of_mem _ later)

theorem join_cons {lines : List Text} (more : lines ≠ []) (separator line : Text) :
    join separator (line :: lines) = line ++ (separator ++ join separator lines) := by
  cases lines with
  | nil => exact (more rfl).elim
  | cons => rw [join, List.append_assoc]; exact List.cons_ne_nil _ _

/-- A source is its pieces, joined by line feeds. -/
theorem join_splitOn (text : Text) (code : CodePoint) :
    join [code] (text.splitOn code) = text := by
  have same (parts : List Text) : join [code] parts = [code].intercalate parts := by
    induction parts with
    | nil => rfl
    | cons part parts hypothesis =>
      cases parts with
      | nil => simp [join]
      | cons =>
        rw [join_cons (List.cons_ne_nil _ _), hypothesis,
          List.intercalate_cons_of_ne_nil (List.cons_ne_nil _ _), List.append_assoc]
  rw [same, List.intercalate_splitOn]

end Text

namespace Position

theorem advanceBy_column_add
    {text : Text}
    (inLine : ∀ code ∈ text, code ≠ .scalar '\n')
    (position : Position) :
    (position.advanceBy text).column = position.column + text.length := by
  induction text generalizing position with
  | nil => rfl
  | cons code text hypothesis =>
    obtain ⟨notFeed, later⟩ := List.forall_mem_cons.mp inLine
    rw [advanceBy_cons, hypothesis later, advance, if_neg notFeed, List.length_cons]
    exact Nat.add_right_comm ..

end Position

namespace TokenStream

namespace Passage

variable {file : Option Text} {reader last : Reader} {start : Position} {inLine signs : Bool}
  {text rest : Text} {tokens : List Token} {indents : List (Nat × Nat)}

theorem through_blanks
    {blanks : Text}
    (areBlank : ∀ code ∈ blanks, isBlank code = true)
    (passage :
      Passage file ⟨start.advanceBy blanks, 0, inLine, signs⟩ text tokens indents last rest) :
    Passage file ⟨start, 0, inLine, signs⟩ (blanks ++ text) tokens indents last rest := by
  induction blanks generalizing start with
  | nil => exact passage
  | cons code blanks hypothesis =>
    obtain ⟨isBlank, later⟩ := List.forall_mem_cons.mp areBlank
    exact .blank isBlank (hypothesis later passage)

theorem behind_blanks
    {blanks : Text}
    (areBlank : ∀ code ∈ blanks, isBlank code = true)
    (passage : Passage file ⟨start, 0, inLine, signs⟩ (blanks ++ text) tokens indents last []) :
    Passage file ⟨start.advanceBy blanks, 0, inLine, signs⟩ text tokens indents last [] := by
  induction blanks generalizing start with
  | nil => exact passage
  | cons code blanks hypothesis =>
    obtain ⟨isBlank, later⟩ := List.forall_mem_cons.mp areBlank
    generalize shape : code :: blanks ++ text = whole at passage
    cases passage with
    | done => cases shape
    | lineEnd =>
      cases shape
      cases isBlank
    | emptyLine =>
      cases shape
      cases isBlank
    | blank _ passage =>
      cases shape
      exact hypothesis later passage
    | comment =>
      obtain ⟨rfl, _⟩ := List.cons.inj shape
      cases isBlank
    | token scanned =>
      obtain ⟨rfl, _⟩ := List.cons.inj shape
      rw [(visible_of_scanned scanned).2.1] at isBlank
      cases isBlank

theorem comment_to_end
    {body : Text}
    (inBody : ∀ code ∈ body, code ≠ .scalar '\n')
    (file : Option Text)
    (start : Position)
    (inLine signs : Bool) :
    Passage file ⟨start, 0, inLine, signs⟩ (.scalar '#' :: body) [] []
      ⟨start.advanceBy (.scalar '#' :: body), 0, inLine, signs⟩ [] := by
  rw [← List.append_nil body]
  refine .comment inBody (fun _ first => nomatch first) ?_
  rw [List.append_nil]
  exact .done

/-- Idle text gives no token and leaves the line as it is. -/
theorem idle
    (file : Option Text)
    (idle : text.isIdle = true)
    (start : Position)
    (inLine signs : Bool) :
    ∃ stop, Passage file ⟨start, 0, inLine, signs⟩ text [] [] ⟨stop, 0, inLine, signs⟩ [] := by
  obtain ⟨blanks, rest, rfl, areBlank, ends⟩ := Text.exists_of_isIdle idle
  rcases ends with rfl | ⟨body, rfl, inBody⟩
  · exact ⟨_, through_blanks areBlank .done⟩
  · exact ⟨_, through_blanks areBlank (comment_to_end inBody ..)⟩

/-- Idle text behind a text changes nothing of how it is read. -/
theorem append_idle
    {tail : Text}
    (passage : Passage file reader text tokens indents last rest)
    (atEnd : rest = [])
    (fresh : reader.skip = 0)
    (idle : tail.isIdle = true) :
    ∃ final, Passage file reader (text ++ tail) tokens indents final [] ∧
      final.inLine = last.inLine := by
  induction passage with
  | @done reader =>
    subst atEnd
    obtain ⟨start, skip, inLine, signs⟩ := reader
    obtain rfl : skip = 0 := fresh
    obtain ⟨stop, passage⟩ := Passage.idle file idle start inLine signs
    exact ⟨_, passage, rfl⟩
  | lineEnd _ hypothesis =>
    obtain ⟨final, passage, same⟩ := hypothesis atEnd rfl
    exact ⟨final, .lineEnd passage, same⟩
  | emptyLine _ hypothesis =>
    obtain ⟨final, passage, same⟩ := hypothesis atEnd rfl
    exact ⟨final, .emptyLine passage, same⟩
  | blank isBlank _ hypothesis =>
    obtain ⟨final, passage, same⟩ := hypothesis atEnd rfl
    exact ⟨final, .blank isBlank passage, same⟩
  | @comment _ _ _ body text _ _ _ _ inBody atLineEnd later hypothesis =>
    cases text with
    | nil =>
      -- The comment goes on into what stands behind it.
      cases later
      have inComment : ∀ code ∈ body ++ tail, code ≠ .scalar '\n' :=
        List.forall_mem_append.mpr ⟨inBody, Text.ne_newline_of_isIdle idle⟩
      rw [List.append_nil, List.cons_append]
      exact ⟨_, comment_to_end inComment .., rfl⟩
    | cons code text =>
      obtain ⟨final, passage, same⟩ := hypothesis atEnd rfl
      rw [List.cons_append, List.append_assoc]
      exact ⟨final, .comment inBody atLineEnd passage, same⟩
  | token scanned _ hypothesis =>
    obtain ⟨final, passage, same⟩ := hypothesis atEnd rfl
    rw [List.cons_append, List.append_assoc]
    refine ⟨final, .token ?_ passage, same⟩
    rw [← List.append_assoc]
    exact scan_append scanned (Text.parts_of_isIdle idle)

/-- Without a line feed a line goes on, and no newline is read. -/
theorem stays_inLine
    (passage : Passage file reader text tokens indents last rest)
    (noFeed : ∀ code ∈ text, code ≠ .scalar '\n') :
    (reader.inLine = true → last.inLine = true) ∧
      ∀ token ∈ tokens, token.symbol ≠ .mark .newline := by
  induction passage with
  | done => exact ⟨id, List.forall_mem_nil _⟩
  | lineEnd => exact (noFeed _ List.mem_cons_self rfl).elim
  | emptyLine => exact (noFeed _ List.mem_cons_self rfl).elim
  | blank _ _ hypothesis =>
    exact hypothesis fun code member => noFeed code (List.mem_cons_of_mem _ member)
  | comment _ _ _ hypothesis =>
    exact hypothesis fun code member =>
      noFeed code (List.mem_cons_of_mem _ (List.mem_append_right _ member))
  | @token start _ _ first tail _ _ _ _ _ _ scanned _ hypothesis =>
    have later := hypothesis fun code member =>
      noFeed code (List.mem_cons_of_mem _ (List.mem_append_right _ member))
    have visible := Token.isVisible_iff.mp
      (pieceToken_isVisible file scanned (first :: tail) start)
    exact ⟨fun _ => later.1 rfl, List.forall_mem_cons.mpr ⟨visible.1, later.2⟩⟩

/-- Behind a line the next one is read from its start. -/
theorem readFrom_line
    (passage : Passage file reader text tokens indents last [])
    (fresh : reader.skip = 0)
    (rest : Text) :
    readFrom file reader (text ++ .scalar '\n' :: rest) =
      after (tokens ++ closing file last) indents
        (readFrom file ⟨last.position.advance (.scalar '\n'), 0, false, true⟩ rest) := by
  rw [(passage.before_newline rest).readFrom_eq, readFrom]
  have noSkip := passage.skip_eq fresh
  obtain ⟨position, skip, inLine, signs⟩ := last
  obtain rfl : skip = 0 := noSkip
  cases inLine <;> simp [after, closeLine, closing, cons, newlineToken]

end Passage

/-- What is read without failure starts with a line that is. -/
theorem exists_passage_of_line
    {file : Option Text} {start : Position} {inLine signs : Bool} {line rest : Text}
    (accepted : (readFrom file ⟨start, 0, inLine, signs⟩ (line ++ .scalar '\n' :: rest)).failure =
      none) :
    ∃ tokens indents last,
      Passage file ⟨start, 0, inLine, signs⟩ line tokens indents last [] := by
  obtain ⟨_, _, _, whole⟩ := exists_passage accepted
  exact whole.cut rfl rfl

end TokenStream

end Offside
