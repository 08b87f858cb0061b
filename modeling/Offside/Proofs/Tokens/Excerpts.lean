import Offside.Proofs.Tokens.Lines

namespace Offside

/-!
# The line under a report

A report shows the line of a source on which a span starts, and marks the columns of the span in
it.  Positions count lines by line feeds, but the lines that are shown end at every line boundary.
So the marks stand under the text of the span as long as every boundary before the end of the
span is a line feed, alone or behind a carriage return.  With any other boundary there, the line
that is shown ends before the span does.
-/

open TokenStream

/-! ## Boundaries and lines -/

variable {rest text : Text} {size : Nat} {misread : Misread} {first : CodePoint}
  {file : Option Text}

namespace Text

variable {code : CodePoint}

/-- Whether every line boundary of a text is a line feed, alone or behind a carriage return. -/
def feedsOnly : Text → Bool
  | [] => true
  | .scalar '\r' :: .scalar '\n' :: rest => feedsOnly rest
  | code :: rest => (code == .scalar '\n' || !code.endsLine) && feedsOnly rest

/-- How many line boundaries a text has. -/
def boundaries : Text → Nat
  | [] => 0
  | .scalar '\r' :: .scalar '\n' :: rest => boundaries rest + 1
  | code :: rest => (if code.endsLine then 1 else 0) + boundaries rest

/-- A text goes up to the start of a line, as positions count lines. -/
def ToLineStart (text : Text) : Prop :=
  ∀ last ∈ text.getLast?, last = .scalar '\n'

theorem count_le_boundaries (text : Text) :
    text.count (.scalar '\n') ≤ text.boundaries := by
  fun_induction boundaries text with
  | case1 => exact Nat.le_refl _
  | case2 rest hypothesis =>
    simpa using hypothesis
  | case3 code rest noPair hypothesis =>
    rw [List.count_cons]
    by_cases isFeed : code = .scalar '\n'
    · subst isFeed
      have ends : CodePoint.endsLine (.scalar '\n') = true := by decide
      rw [ends, beq_self_eq_true]
      simp only [if_true]
      omega
    · rw [beq_false_of_ne isFeed]
      simp only [Bool.false_eq_true, if_false]
      omega

/-- A carriage return in front of a text does not meet a line feed behind it. -/
theorem head?_append_ne_feed
    (noPair : ∀ later, code = .scalar '\r' → rest = .scalar '\n' :: later → False)
    (nonempty : code = .scalar '\r' → rest ≠ [])
    (more : Text) :
    code = .scalar '\r' → (rest ++ more).head? ≠ some (.scalar '\n') := by
  intro isReturn isPair
  cases rest with
  | nil => exact nonempty isReturn rfl
  | cons second rest =>
    cases isPair
    exact noPair rest isReturn rfl

theorem lines_of_boundary
    (ends : code.endsLine = true)
    (noPair : code = .scalar '\r' → rest.head? ≠ some (.scalar '\n')) :
    lines (code :: rest) = [] :: lines rest := by
  rw [lines, if_pos ends]
  rintro more rfl rfl
  exact noPair rfl rfl

/-- A boundary ends an empty line. -/
theorem lines_getElem?_zero (ends : code.endsLine = true) (rest : Text) :
    (lines (code :: rest))[0]? = some [] := by
  by_cases isPair : code = .scalar '\r' ∧ rest.head? = some (.scalar '\n')
  · obtain ⟨rfl, isFeed⟩ := isPair
    obtain ⟨later, rfl⟩ := List.head?_eq_some_iff.mp isFeed
    rfl
  · rw [lines_of_boundary ends (not_and.mp isPair)]
    rfl

/-- What is no boundary stands at the head of the line behind it. -/
theorem lines_of_plain (plain : code.endsLine = false) (rest : Text) :
    lines (code :: rest) = (code :: (lines rest).headD []) :: (lines rest).tail := by
  rw [lines, if_neg (by rw [plain]; exact Bool.false_ne_true)]
  · cases lines rest <;> rfl
  · rintro _ rfl
    cases plain

theorem lines_cons_ne_nil (code : CodePoint) (rest : Text) : lines (code :: rest) ≠ [] := by
  cases ends : code.endsLine with
  | true => exact List.ne_nil_of_mem (List.mem_of_getElem? (lines_getElem?_zero ends rest))
  | false =>
    rw [lines_of_plain ends]
    exact List.cons_ne_nil _ _

theorem getElem?_lines_of_plain (plain : code.endsLine = false) (rest : Text) (index : Nat) :
    (lines (code :: rest))[index + 1]? = (lines rest)[index + 1]? := by
  rw [lines_of_plain plain, List.getElem?_cons_succ]
  cases lines rest <;> rfl

/-- A text has as many boundaries as line feeds exactly if it has no other boundaries. -/
theorem boundaries_eq_count_iff (text : Text) :
    text.boundaries = text.count (.scalar '\n') ↔ text.feedsOnly = true := by
  fun_induction boundaries text with
  | case1 => exact iff_of_true rfl rfl
  | case2 rest hypothesis =>
    rw [feedsOnly, ← hypothesis]
    simp
  | case3 code rest noPair hypothesis =>
    have bound := count_le_boundaries rest
    rw [feedsOnly, Bool.and_eq_true_iff, ← hypothesis, List.count_cons]
    · by_cases isFeed : code = .scalar '\n'
      · subst isFeed
        have ends : CodePoint.endsLine (.scalar '\n') = true := by decide
        simp only [ends, beq_self_eq_true, if_true, Bool.true_or, true_and]
        omega
      · cases ends : code.endsLine with
        | true => simp only [beq_false_of_ne isFeed, Bool.false_eq_true, if_true, if_false,
            Bool.not_true, Bool.or_self, false_and, iff_false]; omega
        | false => simp only [beq_false_of_ne isFeed, Bool.false_eq_true, if_false,
            Bool.not_false, Bool.or_true, true_and]; omega
    · exact noPair

theorem plain_of_boundaries_eq_zero (none : text.boundaries = 0) :
    ∀ code ∈ text, code.endsLine = false := by
  fun_induction boundaries text with
  | case1 => exact List.forall_mem_nil _
  | case2 => cases none
  | case3 code rest _ hypothesis =>
    obtain ⟨here, later⟩ := Nat.add_eq_zero_iff.mp none
    refine List.forall_mem_cons.mpr ⟨?_, hypothesis later⟩
    cases ends : code.endsLine with
    | true => rw [ends] at here; cases here
    | false => rfl

end Text

/-! ## Where a scan fails -/

/-- A failed scan covers a part of its text, which starts on the first line of the text, and
there is a code point before the end of this part. -/
structure Misread.Fits (misread : Misread) (text : Text) : Prop where
  ordered : misread.first ≤ misread.last
  inside : misread.last ≤ text.length
  nonempty : 0 < misread.last
  inLine : ∀ code ∈ text.take misread.first, code ≠ .scalar '\n'

/-- A failure that covers a text from its start. -/
theorem Misread.fits_of_start
    {cause : LexicalCause}
    (positive : 0 < size)
    (inside : size ≤ text.length) :
    Misread.Fits ⟨cause, 0, size⟩ text :=
  ⟨Nat.zero_le _, inside, positive, fun _ member => nomatch member⟩

namespace Scan

variable {sequence : Text}

theorem hexEscape_error
    {letter : Char} {width : Nat}
    (refused : hexEscape letter width rest = .error sequence) :
    ∃ after, .scalar letter :: rest = sequence ++ after := by
  unfold hexEscape at refused
  simp only at refused
  split at refused
  · cases refused
  · cases refused
    have digits : (rest.take width).takeWhile (·.hexValue?.isSome) <+: rest.take width :=
      List.takeWhile_prefix _
    obtain ⟨after, shape⟩ := digits.trans <| List.take_prefix width rest
    exact ⟨after, congrArg (.scalar letter :: ·) shape.symm⟩

/-- What is no escape stands behind the backslash. -/
theorem escape_error (refused : escape rest = .error sequence) :
    ∃ after, rest = sequence ++ after := by
  unfold escape at refused
  split at refused
  · cases refused
    exact ⟨[], rfl⟩
  all_goals try cases refused
  · exact hexEscape_error refused
  · exact hexEscape_error refused
  · exact ⟨_, rfl⟩

/-- An escape that is none, behind text of one line and a backslash. -/
theorem fits_of_escape
    (consumed : Text)
    (isSize : consumed.length = size)
    (clean : ∀ code ∈ consumed, code ≠ .scalar '\n')
    (refused : escape rest = .error sequence) :
    Misread.Fits ⟨.unknownEscape sequence, size + 1, size + 1 + sequence.length⟩
      (consumed ++ .scalar '\\' :: rest) := by
  obtain ⟨after, rfl⟩ := escape_error refused
  subst isSize
  have backslash : ∀ code ∈ [CodePoint.scalar '\\'], code ≠ .scalar '\n' :=
    List.forall_mem_singleton.mpr (by decide)
  refine ⟨Nat.le_add_right .., ?_, Nat.lt_of_lt_of_le (Nat.succ_pos _) (Nat.le_add_right ..), ?_⟩
  · simp only [List.length_append, List.length_cons]
    omega
  · rw [List.append_cons, List.take_left' (by simp)]
    exact List.forall_mem_append.mpr ⟨clean, backslash⟩

theorem stringBody_misread
    {skip : Nat}
    (consumed : Text)
    (refused : stringBody size skip rest = .error misread)
    (skipped : ∀ code ∈ rest.take skip, code ≠ .scalar '\n')
    (positive : 0 < size)
    (isSize : consumed.length = size)
    (clean : ∀ code ∈ consumed, code ≠ .scalar '\n') :
    misread.Fits (consumed ++ rest) := by
  -- Where the string stops, it covers what was consumed.
  have stopped (rest : Text) : Misread.Fits ⟨.unterminatedString, 0, size⟩ (consumed ++ rest) :=
    Misread.fits_of_start positive (by rw [List.length_append]; omega)
  induction rest generalizing size skip consumed with
  | nil =>
    rw [stringBody] at refused
    cases refused
    exact stopped []
  | cons code rest hypothesis =>
    -- Past one more code point of the line, the induction says it.
    have further {skip : Nat} (later : stringBody (size + 1) skip rest = .error misread)
        (laterSkipped : ∀ code ∈ rest.take skip, code ≠ .scalar '\n')
        (inLine : code ≠ .scalar '\n') :
        misread.Fits (consumed ++ code :: rest) := by
      have longer : (consumed ++ [code]).length = size + 1 := by simp [isSize]
      rw [List.append_cons]
      refine hypothesis _ later laterSkipped (Nat.succ_pos _) longer ?_ fun rest => ?_
      · exact List.forall_mem_append.mpr ⟨clean, List.forall_mem_singleton.mpr inLine⟩
      · exact Misread.fits_of_start (Nat.succ_pos _) (by rw [List.length_append]; omega)
    cases skip with
    | succ skip =>
      simp only [List.take_succ_cons, List.forall_mem_cons] at skipped
      rw [stringBody] at refused
      exact further refused skipped.2 skipped.1
    | zero =>
      rw [stringBody] at refused
      by_cases isQuote : code = .scalar '"'
      · rw [if_pos isQuote] at refused
        cases refused
      rw [if_neg isQuote] at refused
      by_cases isNewline : code = .scalar '\n'
      · rw [if_pos isNewline] at refused
        cases refused
        exact stopped _
      rw [if_neg isNewline] at refused
      by_cases isBackslash : code = .scalar '\\'
      · rw [if_pos isBackslash] at refused
        split at refused
        · next sequence noEscape =>
            cases refused
            rw [isBackslash]
            exact fits_of_escape consumed isSize clean noEscape
        · next value width escaped =>
            split at refused
            · next later =>
                cases refused
                exact further later (escape_ok escaped).2.1 isNewline
            · cases refused
      · rw [if_neg isBackslash] at refused
        split at refused
        · next later =>
            cases refused
            exact further later (by simp) isNewline
        · cases refused

theorem rawString_misread (refused : rawString rest = .misread misread) (first second : CodePoint) :
    misread.Fits (first :: second :: rest) := by
  unfold rawString at refused
  simp only at refused
  split at refused
  · cases refused
  · cases refused
    refine Misread.fits_of_start (Nat.succ_pos _) ?_
    exact Nat.add_le_add_right (List.takeWhile_sublist _).length_le 2

theorem characterEnd_misread
    {value : CodePoint}
    (refused : characterEnd text value size = .misread misread)
    (positive : 0 < size)
    (inside : size ≤ text.length) :
    misread.Fits text := by
  unfold characterEnd at refused
  split at refused
  · cases refused
  · simp only at refused
    generalize isBody : (text.drop size).takeWhile _ = body at refused
    have isStart : body <+: text.drop size := isBody ▸ List.takeWhile_prefix _
    have bound := isStart.length_le
    rw [List.length_drop] at bound
    split at refused
    · next after closes =>
        cases refused
        have lengths := congrArg List.length closes
        rw [List.length_drop, List.length_drop, List.length_cons] at lengths
        exact Misread.fits_of_start (Nat.succ_pos _) (by omega)
    · cases refused
      exact Misread.fits_of_start (by omega) (by omega)

theorem character_misread (refused : character (.scalar '\'' :: rest) = .misread misread) :
    misread.Fits (.scalar '\'' :: rest) := by
  unfold character at refused
  simp only [List.drop_succ_cons, List.drop_zero] at refused
  split at refused
  · cases refused
    exact Misread.fits_of_start (Nat.succ_pos _) (Nat.le_add_left ..)
  · cases refused
    exact Misread.fits_of_start (Nat.succ_pos _) (Nat.le_add_left ..)
  · cases refused
    exact Misread.fits_of_start (Nat.succ_pos _) (by simp)
  · split at refused
    · next value width escaped =>
        have enough := (escape_ok escaped).1
        refine characterEnd_misread refused
          (Nat.lt_of_lt_of_le Nat.two_pos (Nat.le_add_right ..)) ?_
        simp only [List.length_cons]
        omega
    · next noEscape =>
        cases refused
        have quote : ∀ code ∈ [CodePoint.scalar '\''], code ≠ .scalar '\n' :=
          List.forall_mem_singleton.mpr (by decide)
        exact fits_of_escape [.scalar '\''] rfl quote noEscape
  · exact characterEnd_misread refused Nat.two_pos (by simp)

theorem integer_misread
    {negative : Bool} {digits lexeme : Text}
    (refused : integer negative digits lexeme = .misread misread) :
    ∃ cause, misread = ⟨cause, 0, lexeme.length⟩ := by
  unfold integer at refused
  split at refused
  · cases refused
  · simp only at refused
    generalize (if negative = true then _ else _ : Int) = value at refused
    split at refused
    · cases refused
    · cases refused
      exact ⟨_, rfl⟩

theorem number_misread
    {signAllowed : Bool}
    (starts : startsNumber signAllowed (first :: rest) = true)
    (refused : number (first :: rest) = .misread misread) :
    misread.Fits (first :: rest) := by
  have positive := numberSize_pos starts
  have inside := numberSize_le (first :: rest)
  rw [number_eq] at refused
  simp only at refused
  split at refused
  · cases refused
    have tail := (List.takeWhile_sublist (l := (first :: rest).drop (numberSize (first :: rest)))
      fun code => code.continuesWord || code == .scalar '.').length_le
    rw [List.length_drop] at tail
    exact Misread.fits_of_start (by omega) (by omega)
  · split at refused
    · unfold decimal at refused
      cases refused
    · obtain ⟨cause, rfl⟩ := integer_misread refused
      rw [List.length_take_of_le inside]
      exact Misread.fits_of_start positive inside

theorem sign_misread (refused : sign first rest = .misread misread) :
    misread.Fits (first :: rest) := by
  unfold sign at refused
  split at refused
  all_goals cases refused
  exact Misread.fits_of_start (Nat.succ_pos _) (Nat.le_add_left ..)

end Scan

theorem scan_misread
    {signAllowed : Bool}
    (refused : scan signAllowed first rest = .misread misread) :
    misread.Fits (first :: rest) := by
  unfold scan at refused
  split at refused
  · unfold Scan.string at refused
    split at refused
    · cases refused
    · next read =>
        cases refused
        have quote : ∀ code ∈ [CodePoint.scalar '"'], code ≠ .scalar '\n' :=
          List.forall_mem_singleton.mpr (by decide)
        exact Scan.stringBody_misread [.scalar '"'] read (by simp) Nat.one_pos
          rfl quote
  · exact Scan.rawString_misread refused _ _
  · exact Scan.character_misread refused
  · split at refused
    · next starts => exact Scan.number_misread starts refused
    split at refused
    · unfold Scan.word at refused
      cases refused
    · exact Scan.sign_misread refused

/-! ## Up to the start of a line -/

namespace Text

variable {code : CodePoint}

namespace ToLineStart

theorem tail {code : CodePoint} {rest : Text} (starts : ToLineStart (code :: rest)) :
    ToLineStart rest := by
  intro last isLast
  refine starts last ?_
  rw [List.getLast?_cons, Option.mem_def.mp isLast]
  rfl

theorem noPair_append
    (starts : ToLineStart (code :: rest))
    (noPair : ∀ later, code = .scalar '\r' → rest = .scalar '\n' :: later → False)
    (more : Text) :
    code = .scalar '\r' → (rest ++ more).head? ≠ some (.scalar '\n') := by
  refine head?_append_ne_feed noPair ?_ more
  rintro rfl rfl
  cases starts _ rfl

variable {front : Text} (starts : front.ToLineStart) (more : Text)

include starts

theorem boundaries_append : (front ++ more).boundaries = front.boundaries + more.boundaries := by
  fun_induction boundaries front with
  | case1 => rw [List.nil_append, Nat.zero_add]
  | case2 rest hypothesis =>
    rw [List.cons_append, List.cons_append, boundaries, hypothesis starts.tail.tail]
    exact Nat.add_right_comm ..
  | case3 code rest noPair hypothesis =>
    rw [List.cons_append, boundaries, hypothesis starts.tail, Nat.add_assoc]
    rintro later isReturn isPair
    exact starts.noPair_append noPair more isReturn (congrArg List.head? isPair)

/-- The lines up to the start of a line, and those from there on. -/
theorem lines_append : (front ++ more).lines = front.lines ++ more.lines := by
  fun_induction boundaries front with
  | case1 => rfl
  | case2 rest hypothesis =>
    exact congrArg ([] :: ·) (hypothesis starts.tail.tail)
  | case3 code rest noPair hypothesis =>
    have later := hypothesis starts.tail
    rw [List.cons_append]
    cases ends : code.endsLine with
    | true =>
      rw [lines_of_boundary ends (starts.noPair_append noPair more), later,
        lines_of_boundary ends ?_]
      · rfl
      · simpa using starts.noPair_append noPair []
    | false =>
      rw [lines_of_plain ends, lines_of_plain ends, later]
      cases isRest : lines rest with
      | cons => rfl
      | nil =>
        -- Only the empty text has no line, and the last code point is a line feed.
        cases rest with
        | nil =>
          cases starts code rfl
          cases ends
        | cons second rest => exact (lines_cons_ne_nil second rest isRest).elim

theorem length_lines : front.lines.length = front.boundaries := by
  fun_induction boundaries front with
  | case1 => rfl
  | case2 rest hypothesis =>
    exact congrArg (· + 1) (hypothesis starts.tail.tail)
  | case3 code rest noPair hypothesis =>
    have later := hypothesis starts.tail
    cases ends : code.endsLine with
    | true =>
      rw [lines_of_boundary ends (by simpa using starts.noPair_append noPair []),
        List.length_cons, later, if_pos rfl, Nat.add_comm]
    | false =>
      rw [lines_of_plain ends, List.length_cons, List.length_tail, later,
        if_neg Bool.false_ne_true, Nat.zero_add]
      cases rest with
      | nil =>
        cases starts code rfl
        cases ends
      | cons second rest =>
        have positive := List.length_pos_of_ne_nil (lines_cons_ne_nil second rest)
        omega

end ToLineStart

/-- A text is what stands up to the start of its last line, and a part of that line. -/
theorem exists_toLineStart (text : Text) :
    ∃ front lead, text = front ++ lead ∧ front.ToLineStart ∧
      ∀ code ∈ lead, code ≠ .scalar '\n' := by
  obtain ⟨body, rest, shape, inBody, atFeed⟩ := exists_lineRest text.reverse
  refine ⟨rest.reverse, body.reverse, ?_, fun last isLast => ?_, fun code member => ?_⟩
  · rw [← List.reverse_append, ← shape, List.reverse_reverse]
  · rw [List.getLast?_reverse] at isLast
    exact atFeed last isLast
  · exact inBody code (List.mem_reverse.mp member)

/-- Plain text and what follows it start with one line. -/
theorem lines_append_of_plain
    (plain : ∀ code ∈ text, code.endsLine = false)
    (nonempty : text ≠ [])
    (rest : Text) :
    ∃ more, (text ++ rest).lines[0]? = some (text ++ more) := by
  induction text with
  | nil => exact (nonempty rfl).elim
  | cons code text hypothesis =>
    obtain ⟨isPlain, later⟩ := List.forall_mem_cons.mp plain
    rw [List.cons_append, lines_of_plain isPlain]
    cases text with
    | nil => exact ⟨_, rfl⟩
    | cons second text =>
      obtain ⟨more, isFirst⟩ := hypothesis later (List.cons_ne_nil _ _)
      refine ⟨more, ?_⟩
      rw [List.getElem?_cons_zero]
      rw [← List.head?_eq_getElem?] at isFirst
      rw [List.headD_eq_head?_getD, isFirst]
      rfl

/-- A line that is closed inside a text is shown as it stands there. -/
theorem exists_closed_line {index : Nat} (closed : index < text.boundaries) (rest : Text) :
    ∃ line earlier boundary later, (text ++ rest).lines[index]? = some line ∧
      text = earlier ++ line ++ boundary :: later ∧ boundary.endsLine = true ∧
      (index = 0 → earlier = []) := by
  fun_induction boundaries text generalizing index with
  | case1 => cases closed
  | case2 tail hypothesis =>
    cases index with
    | zero => exact ⟨[], [], _, _, rfl, rfl, by decide, fun _ => rfl⟩
    | succ index =>
      obtain ⟨line, earlier, boundary, later, shown, rfl, ends, _⟩ :=
        hypothesis (Nat.lt_of_succ_lt_succ closed)
      exact ⟨line, .scalar '\r' :: .scalar '\n' :: earlier, boundary, later, shown, rfl, ends,
        nofun⟩
  | case3 code tail noPair hypothesis =>
    rw [List.cons_append]
    cases ends : code.endsLine with
    | true =>
      rw [ends, if_pos rfl] at closed
      cases index with
      | zero => exact ⟨[], [], code, tail, lines_getElem?_zero ends _, rfl, ends, fun _ => rfl⟩
      | succ index =>
        have inTail : index < boundaries tail := by omega
        obtain ⟨line, earlier, boundary, later, shown, rfl, isBoundary, _⟩ :=
          hypothesis inTail
        refine ⟨line, code :: earlier, boundary, later, ?_, rfl, isBoundary, nofun⟩
        rw [lines_of_boundary ends, List.getElem?_cons_succ, shown]
        exact head?_append_ne_feed noPair (fun _ => by simp) rest
    | false =>
      rw [ends, if_neg Bool.false_ne_true, Nat.zero_add] at closed
      obtain ⟨line, earlier, boundary, later, shown, rfl, isBoundary, isFirst⟩ :=
        hypothesis closed
      cases index with
      | zero =>
        cases isFirst rfl
        refine ⟨code :: line, [], boundary, later, ?_, rfl, isBoundary, fun _ => rfl⟩
        rw [← List.head?_eq_getElem?] at shown
        rw [lines_of_plain ends, List.getElem?_cons_zero, List.headD_eq_head?_getD, shown]
        rfl
      | succ index =>
        refine ⟨line, code :: earlier, boundary, later, ?_, rfl, isBoundary, nofun⟩
        rw [getElem?_lines_of_plain ends, shown]

end Text

/-! ## Spans in their lines -/

/-- A span cuts a piece out of a source.  If it stays on one line, something stands before its end
on this line. -/
structure Span.Cuts (span : Span) (source before piece after : Text) : Prop where
  whole : source = before ++ piece ++ after
  start : span.start = Position.origin.advanceBy before
  stop : span.stop = Position.origin.advanceBy (before ++ piece)
  inLine : span.start.line = span.stop.line → 1 < span.stop.column

namespace Position

theorem origin_advanceBy_line (text : Text) :
    (origin.advanceBy text).line = 1 + text.count (.scalar '\n') := by
  rw [origin_advanceBy]
  simp [within]

/-- From the start of a line, columns count the code points. -/
theorem origin_advanceBy_column
    {front lead : Text}
    (starts : front.ToLineStart)
    (inLine : ∀ code ∈ lead, code ≠ .scalar '\n') :
    (origin.advanceBy (front ++ lead)).column = 1 + lead.length := by
  have atStart : (origin.advanceBy front).column = 1 := by
    rcases List.eq_nil_or_concat front with rfl | ⟨earlier, last, rfl⟩
    · rfl
    · obtain rfl := starts last (by simp)
      rw [List.concat_eq_append, advanceBy_append]
      rfl
  rw [advanceBy_append, advanceBy_column_add inLine, atStart]

theorem one_le_column (text : Text) : 1 ≤ (origin.advanceBy text).column := by
  obtain ⟨front, lead, rfl, starts, inLine⟩ := Text.exists_toLineStart text
  rw [origin_advanceBy_column starts inLine]
  omega

/-- A text that leads to no other line has no line feed. -/
theorem ne_newline_of_line_eq
    {before piece : Text}
    (oneLine : (origin.advanceBy before).line = (origin.advanceBy (before ++ piece)).line) :
    ∀ code ∈ piece, code ≠ .scalar '\n' := by
  rw [origin_advanceBy_line, origin_advanceBy_line, List.count_append] at oneLine
  have none : piece.count (.scalar '\n') = 0 := by omega
  rintro code member rfl
  exact List.count_eq_zero.mp none member

end Position

namespace Span.Cuts

variable {span : Span} {source before piece after : Text}
  (cuts : span.Cuts source before piece after)

include cuts

theorem slice_eq : source.slice span.start.offset span.stop.offset = piece := by
  rw [cuts.start, cuts.stop, Position.origin_advanceBy_offset, Position.origin_advanceBy_offset,
    List.length_append, cuts.whole, Text.slice_append]

theorem take_eq : source.take span.stop.offset = before ++ piece := by
  rw [cuts.stop, Position.origin_advanceBy_offset, cuts.whole, List.take_left]

/-- The number of the line that is shown counts the line feeds up to the end of the span. -/
theorem line?_eq (oneLine : span.start.line = span.stop.line) :
    source.line? span.start.line = source.lines[(before ++ piece).count (.scalar '\n')]? := by
  rw [oneLine, cuts.stop, Position.origin_advanceBy_line, Nat.add_comm]
  rfl

/-- Where every boundary is a line feed, the line that is shown has the piece in its columns. -/
theorem shown
    (oneLine : span.start.line = span.stop.line)
    (feedsOnly : (before ++ piece).feedsOnly = true) :
    ∃ line, source.line? span.start.line = some line ∧
      line.slice (span.start.column - 1) (span.stop.column - 1) = piece := by
  have inLine := cuts.inLine oneLine
  rw [cuts.line?_eq oneLine]
  rw [cuts.start, cuts.stop] at oneLine
  have inPiece := Position.ne_newline_of_line_eq oneLine
  obtain ⟨front, lead, rfl, starts, inLead⟩ := Text.exists_toLineStart before
  have inOwn : ∀ code ∈ lead ++ piece, code ≠ .scalar '\n' :=
    List.forall_mem_append.mpr ⟨inLead, inPiece⟩
  have startColumn := Position.origin_advanceBy_column starts inLead
  have stopColumn := Position.origin_advanceBy_column starts inOwn
  have noFeed : (lead ++ piece).count (.scalar '\n') = 0 :=
    List.count_eq_zero.mpr fun member => inOwn _ member rfl
  -- All boundaries stand before the line of the span, one for each line feed.
  have counts := (Text.boundaries_eq_count_iff _).mpr feedsOnly
  rw [List.append_assoc, starts.boundaries_append, List.count_append, noFeed] at counts
  have feeds := Text.count_le_boundaries front
  have plain := Text.plain_of_boundaries_eq_zero (show (lead ++ piece).boundaries = 0 by omega)
  have nonempty : lead ++ piece ≠ [] := by
    intro isEmpty
    rw [cuts.stop, List.append_assoc, stopColumn, isEmpty] at inLine
    exact Nat.lt_irrefl _ inLine
  obtain ⟨more, isLine⟩ := Text.lines_append_of_plain plain nonempty after
  refine ⟨lead ++ piece ++ more, ?_, ?_⟩
  · rw [cuts.whole, List.append_assoc front, List.append_assoc front, starts.lines_append,
      List.count_append, noFeed, List.getElem?_append_right (by rw [starts.length_lines]; omega),
      starts.length_lines, ← isLine]
    congr 1
    omega
  · rw [cuts.start, cuts.stop, startColumn, List.append_assoc front, stopColumn,
      Nat.add_sub_cancel_left, Nat.add_sub_cancel_left, List.length_append, Text.slice_append]

/-- Behind another boundary, a line is shown that ends before the span does. -/
theorem not_shown
    (oneLine : span.start.line = span.stop.line)
    (otherwise : (before ++ piece).feedsOnly = false) :
    ∃ line earlier boundary later, source.line? span.start.line = some line ∧
      before ++ piece = earlier ++ line ++ boundary :: later ∧ boundary.endsLine = true := by
  have more : (before ++ piece).count (.scalar '\n') < (before ++ piece).boundaries := by
    refine Nat.lt_of_le_of_ne (Text.count_le_boundaries _) fun same => ?_
    rw [(Text.boundaries_eq_count_iff _).mp same.symm] at otherwise
    cases otherwise
  obtain ⟨line, earlier, boundary, later, isLine, shape, ends, _⟩ :=
    Text.exists_closed_line more after
  refine ⟨line, earlier, boundary, later, ?_, shape, ends⟩
  rw [cuts.line?_eq oneLine, cuts.whole, isLine]

end Span.Cuts

namespace TokenStream

/-- The spans that a stream reports: those of its tokens, apart from newlines and the end of input,
and that of the fault in which it ends. -/
inductive Reports (stream : TokenStream) : Span → Prop where
  | token
      {token : Token} :
      token ∈ stream.tokens →
      token.isVisible = true →
      Reports stream token.span
  | fault
      (fault : Fault) {span : Span} :
      stream.failure = some (.fault fault) →
      fault.span = some span →
      Reports stream span

/-- A token of a passage cuts its piece out of the source. -/
theorem Passage.cuts
    {reader last : Reader} {passed source : Text}
    {tokens : List Token} {indents : List (Nat × Nat)} {token : Token}
    (passage : Passage file reader text tokens indents last rest)
    (starts : reader.position = Position.origin.advanceBy passed)
    (whole : source = passed ++ text)
    (member : token ∈ tokens)
    (visible : token.isVisible = true) :
    ∃ before piece after, token.span.Cuts source before piece after := by
  have moved (piece : Text) {passed : Text} {start : Position}
      (starts : start = Position.origin.advanceBy passed) :
      start.advanceBy piece = Position.origin.advanceBy (passed ++ piece) := by
    rw [starts, Position.advanceBy_append]
  induction passage generalizing passed with
  | done => cases member
  | lineEnd _ hypothesis =>
    rcases List.mem_cons.mp member with rfl | inTokens
    · cases visible
    · exact hypothesis (moved [.scalar '\n'] starts) (by simpa using whole) inTokens
  | emptyLine _ hypothesis =>
    exact hypothesis (moved [.scalar '\n'] starts) (by simpa using whole) member
  | @blank _ _ _ code _ _ _ _ _ _ _ hypothesis =>
    exact hypothesis (moved [code] starts) (by simpa using whole) member
  | comment _ _ _ hypothesis =>
    exact hypothesis (moved _ starts) (by simpa using whole) member
  | @token start _ _ first tail text _ symbol _ _ _ scanned _ hypothesis =>
    rcases List.mem_cons.mp member with rfl | inTokens
    · refine ⟨passed, first :: tail, text, by simpa using whole, starts, ?_, fun _ => ?_⟩
      · rw [Position.advanceBy_append, ← starts]
        rfl
      · show 1 < (start.advanceBy (first :: tail)).column
        have column := Position.one_le_column passed
        rw [← starts] at column
        rw [Position.advanceBy_column_add (ne_newline_of_mem_scanned scanned), List.length_cons]
        exact Nat.add_lt_add_of_le_of_lt column (Nat.succ_pos _)
    · exact hypothesis (moved _ starts) (by simpa using whole) inTokens

theorem isVisible_of_mem_endTokens
    {last : Reader} {token : Token}
    (member : token ∈ endTokens file last) :
    token.isVisible = false := by
  unfold endTokens at member
  cases inLine : last.inLine with
  | true =>
    rw [inLine] at member
    rcases List.mem_pair.mp member with rfl | rfl <;> rfl
  | false =>
    rw [inLine] at member
    obtain rfl := List.mem_singleton.mp member
    rfl

/-- A failed scan cuts a piece out of the source. -/
theorem cuts_of_misread {passed : Text} (fits : misread.Fits text) :
    let position := Position.origin.advanceBy passed
    ∃ before piece after,
      Span.Cuts ⟨file, position.advanceBy (text.take misread.first),
        position.advanceBy (text.take misread.last)⟩ (passed ++ text) before piece after := by
  intro position
  have shape : text.take misread.last =
      text.take misread.first ++ (text.take misread.last).drop misread.first := by
    have first := List.take_append_drop misread.first (text.take misread.last)
    rw [List.take_take, Nat.min_eq_left fits.ordered] at first
    exact first.symm
  refine ⟨passed ++ text.take misread.first, (text.take misread.last).drop misread.first,
    text.drop misread.last, ?_, (Position.advanceBy_append ..).symm, ?_, fun oneLine => ?_⟩
  · rw [List.append_assoc passed, ← shape, List.append_assoc, List.take_append_drop]
  · rw [List.append_assoc, ← shape, Position.advanceBy_append]
  · show 1 < (position.advanceBy (text.take misread.last)).column
    have oneLine : (position.advanceBy (text.take misread.first)).line =
      (position.advanceBy (text.take misread.last)).line := oneLine
    rw [shape, ← Position.advanceBy_append, ← Position.advanceBy_append, ← List.append_assoc]
      at oneLine
    have clean := List.forall_mem_append.mpr
      ⟨fits.inLine, Position.ne_newline_of_line_eq oneLine⟩
    rw [← shape] at clean
    have size := List.length_take_of_le fits.inside
    have positive := fits.nonempty
    have column := Position.one_le_column passed
    rw [Position.advanceBy_column_add clean, size]
    exact Nat.add_lt_add_of_le_of_lt column positive

/-- A fault of a stream is a failed scan. -/
theorem exists_misread_of_fault
    {source : Text} {fault : Fault}
    (failed : (tokenize file source).failure = some (.fault fault)) :
    ∃ (passed text : Text) (misread : Misread),
      let position := Position.origin.advanceBy passed
      source = passed ++ text ∧ misread.Fits text ∧
        fault = Fault.attach source.lines (.located (.lexical misread.cause)
          ⟨file, position.advanceBy (text.take misread.first),
            position.advanceBy (text.take misread.last)⟩) := by
  obtain ⟨failure, failedFirst, attached⟩ := Option.map_eq_some_iff.mp failed
  obtain ⟨tokens, indents, last, code, rest, passage, isFailure⟩ :=
    exists_stop_of_failure failedFirst
  obtain ⟨passed, whole, position⟩ := passage.consumed
  unfold Reader.failureAt at isFailure
  rw [position] at isFailure
  split at isFailure
  case h_1 => cases isFailure
  case h_2 misread scanned =>
    cases isFailure
    cases attached
    exact ⟨passed, code :: rest, misread, whole, scan_misread scanned, rfl⟩
  case h_3 =>
    cases isFailure
    cases attached

/-- Every span that the stream of a source reports cuts a piece out of the source. -/
theorem Reports.cuts
    {source : Text} {span : Span}
    (reported : (tokenize file source).Reports span) :
    ∃ before piece after, span.Cuts source before piece after := by
  cases reported with
  | token member visible =>
    obtain ⟨tokens, indents, last, rest, passage, stops⟩ :=
      exists_passage_to_stop file .origin false true source
    have isToken : _ ∈ (readFrom file .initial source).tokens := member
    rw [Reader.initial, passage.readFrom_eq] at isToken
    rcases List.mem_append.mp isToken with inPassage | inRest
    · exact passage.cuts rfl (List.nil_append _).symm inPassage visible
    · -- Behind the passage there are only marks.
      cases rest with
      | nil =>
        rw [readFrom_nil] at inRest
        rw [isVisible_of_mem_endTokens inRest] at visible
        cases visible
      | cons code rest =>
        rw [readFrom_stop (passage.skip_eq rfl) stops] at inRest
        cases inRest
  | fault fault failed located =>
    obtain ⟨passed, text, misread, rfl, fits, rfl⟩ := exists_misread_of_fault failed
    cases located
    exact cuts_of_misread fits

end TokenStream

/-- The fault of a stream shows the line on which its span starts. -/
theorem sourceLine_of_tokenize
    {source : Text} {fault : Fault} {span : Span}
    (failed : (tokenize file source).failure = some (.fault fault))
    (located : fault.span = some span) :
    fault.sourceLine = source.line? span.start.line := by
  obtain ⟨passed, text, misread, -, -, rfl⟩ := TokenStream.exists_misread_of_fault failed
  cases located
  rfl

/-- A reported span on one line is underlined where it stands, if the source up to its end has no
line boundaries but line feeds, alone or behind a carriage return.  Behind any other boundary a
line is shown that is over before the span is.  The line in a fault is the one shown. -/
theorem excerpt_underlines_span
    (file : Option Text)
    (source : Text)
    (span : Span)
    (reported : (tokenize file source).Reports span)
    (oneLine : span.start.line = span.stop.line) :
    (Text.feedsOnly (source.take span.stop.offset) = true →
      ∃ line, source.line? span.start.line = some line ∧
        line.slice (span.start.column - 1) (span.stop.column - 1) =
          source.slice span.start.offset span.stop.offset) ∧
    (Text.feedsOnly (source.take span.stop.offset) = false →
      ∃ line earlier boundary later, source.line? span.start.line = some line ∧
        source.take span.stop.offset = earlier ++ line ++ boundary :: later ∧
          boundary.endsLine = true) ∧
    ∀ fault, (tokenize file source).failure = some (.fault fault) → fault.span = some span →
      fault.sourceLine = source.line? span.start.line := by
  obtain ⟨before, piece, after, cuts⟩ := reported.cuts
  rw [cuts.take_eq, cuts.slice_eq]
  exact ⟨cuts.shown oneLine, cuts.not_shown oneLine,
    fun _ failed located => sourceLine_of_tokenize failed located⟩

/-- The stray sign on the second line of a source with a carriage return before its line feed. -/
theorem excerpt_underlines_stray_sign :
    let source := Text.ofString "a\r\n $"
    let span : Span := ⟨none, ⟨2, 2, 4⟩, ⟨2, 3, 5⟩⟩
    (tokenize none source).Reports span ∧
      ∃ line, source.line? 2 = some line ∧ line.slice 1 2 = source.slice 4 5 := by
  intro source span
  have reported : (tokenize none source).Reports span :=
    .fault ⟨.lexical (.unexpectedCharacter (.scalar '$')), some span, some (Text.ofString " $")⟩
      (by decide +kernel) rfl
  exact ⟨reported, (excerpt_underlines_span none source span reported rfl).1 (by decide +kernel)⟩

/-- A line separator inside a string: the line shown ends there, and the stray sign behind the
string is not in it. -/
theorem excerpt_misses_stray_sign :
    let source := Text.ofString "\"\u2028\" $"
    let span : Span := ⟨none, ⟨1, 5, 4⟩, ⟨1, 6, 5⟩⟩
    let shown := Text.ofString "\""
    (tokenize none source).Reports span ∧
      source.line? 1 = some shown ∧ shown.slice 4 5 ≠ source.slice 4 5 := by
  intro source span shown
  have reported : (tokenize none source).Reports span :=
    .fault ⟨.lexical (.unexpectedCharacter (.scalar '$')), some span, some shown⟩
      (by decide +kernel) rfl
  exact ⟨reported, by decide +kernel, by decide +kernel⟩

end Offside
