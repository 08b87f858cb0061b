import Mathlib.Order.Monotone.Basic
import Offside.Proofs.Layout.Columns
import Offside.Proofs.Layout.Indents
import Offside.Proofs.Tokens.Lines

namespace Offside

/-!
# Sources drawn anew

A source is drawn anew when its lines are indented differently, in the same order, when idle text
is put behind them and when idle lines come in between.  What is read of it is the same but for
places, and its lines start in columns that stand in the same order, so it is laid out in the
same blocks.
-/

open Layout TokenStream

namespace Layout

variable {lines others : List Text} {tokens : List Token} {start place : Position}
  {last final : Reader} {line tail source : Text}

section

variable (scale : Rescaling)

/-- A line is drawn anew: the same text stands behind other blanks, with idle text at its end. -/
inductive LineRedrawn : Text → Text → Prop where
  | line
      {indent margin body tail : Text} :
      (∀ code ∈ indent, isBlank code = true) →
      (∀ code ∈ margin, isBlank code = true) →
      (∀ code, body.head? = some code → isBlank code = false) →
      (∀ code ∈ body, code ≠ .scalar '\n') →
      tail.isIdle = true →
      scale.takes (indent.length + 1) (margin.length + 1) →
      LineRedrawn (indent ++ body) (margin ++ (body ++ tail))

/-- Lines are drawn anew one after the other, with idle lines before, between and behind them. -/
inductive Redrawn : List Text → List Text → Prop where
  | ends
      {line other : Text} {idle : List Text} :
      LineRedrawn scale line other →
      (∀ text ∈ idle, text.isIdle = true) →
      Redrawn [line] (other :: idle)
  | line
      {line other : Text} {lines others : List Text} :
      LineRedrawn scale line other →
      Redrawn lines others →
      Redrawn (line :: lines) (other :: others)
  | before
      {idle : Text} {lines others : List Text} :
      idle.isIdle = true →
      Redrawn lines others →
      Redrawn lines (idle :: others)

end

variable {scale : Rescaling} {file : Option Text}

theorem Redrawn.ne_nil (redrawn : Redrawn scale lines others) : lines ≠ [] ∧ others ≠ [] := by
  induction redrawn with
  | ends => exact ⟨List.cons_ne_nil _ _, List.cons_ne_nil _ _⟩
  | line => exact ⟨List.cons_ne_nil _ _, List.cons_ne_nil _ _⟩
  | before _ _ hypothesis => exact ⟨hypothesis.1, List.cons_ne_nil _ _⟩

/-! ## The tokens of a line drawn anew -/

/-- Where a line goes on, tokens with the same symbols correspond. -/
theorem corresponds_of_alike
    {starts : Bool} {others more moreOthers : List Token}
    (alike : Alike starts tokens others)
    (goesOn : starts = false)
    (noNewline : ∀ token ∈ tokens, token.symbol ≠ .mark .newline)
    (noEnd : ∀ token ∈ tokens, token.symbol ≠ .mark .endOfInput)
    (later : Corresponds scale .sameSymbol [] [] false more moreOthers) :
    Corresponds scale .sameSymbol [] [] false (tokens ++ more) (others ++ moreOthers) := by
  induction alike with
  | nil => exact later
  | newline isNewline => exact (noNewline _ List.mem_cons_self isNewline).elim
  | visible sameSymbol notNewline _ _ hypothesis =>
    refine .visible sameSymbol notNewline (noEnd _ List.mem_cons_self) Bool.noConfusion ?_
    exact hypothesis rfl (List.forall_mem_cons.mp noNewline).2
      (List.forall_mem_cons.mp noEnd).2

/-- The tokens of two lines correspond, whatever corresponding tokens follow. -/
def LinesCorrespond (scale : Rescaling) (tokens others : List Token) (inLine : Bool) : Prop :=
  ∀ more moreOthers, Corresponds scale .sameSymbol [] [] (!inLine) more moreOthers →
    Corresponds scale .sameSymbol [] [] true (tokens ++ more) (others ++ moreOthers)

/-- What starts a line is read alike in another column. -/
theorem exists_passage_of_moved
    {body : Text} {indents : Indents}
    (passage : Passage file ⟨start, 0, false, true⟩ body tokens indents last [])
    (visible : ∀ code, body.head? = some code → isBlank code = false)
    (noFeed : ∀ code ∈ body, code ≠ .scalar '\n')
    (columns : scale.takes start.column place.column) :
    ∃ others records final, Passage file ⟨place, 0, false, true⟩ body others records final [] ∧
      final.inLine = last.inLine ∧ LinesCorrespond scale tokens others last.inLine := by
  cases passage with
  | done => exact ⟨[], [], _, .done, rfl, fun _ _ corresponds => corresponds⟩
  | emptyLine => exact (noFeed _ List.mem_cons_self rfl).elim
  | blank isBlank =>
    rw [visible _ rfl] at isBlank
    cases isBlank
  | @comment _ _ _ body text _ _ _ _ inBody atLineEnd later =>
    cases text with
    | nil =>
      cases later
      rw [List.append_nil]
      exact ⟨[], [], _, .comment_to_end inBody .., rfl, fun _ _ corresponds => corresponds⟩
    | cons code text =>
      have member : code ∈ .scalar '#' :: (body ++ code :: text) :=
        List.mem_cons_of_mem _ (List.mem_append_right _ List.mem_cons_self)
      exact (noFeed code member (atLineEnd code rfl)).elim
  | @token _ _ _ first tail text _ symbol _ _ _ scanned later =>
    have inText : ∀ code ∈ text, code ≠ .scalar '\n' := fun code member =>
      noFeed code (List.mem_cons_of_mem _ (List.mem_append_right _ member))
    obtain ⟨others, records, final, moved, alike⟩ :=
      later.elsewhere (place.advanceBy (first :: tail)) Bool.noConfusion
    obtain ⟨goesOn, noNewline⟩ := later.stays_inLine inText
    have alsoGoesOn := (moved.stays_inLine inText).1
    have visible := Token.isVisible_iff.mp
      (Passage.pieceToken_isVisible file scanned (first :: tail) start)
    refine ⟨_, _, final, .token scanned moved, (alsoGoesOn rfl).trans (goesOn rfl).symm, ?_⟩
    intro more moreOthers corresponds
    rw [goesOn rfl] at corresponds
    refine .visible rfl visible.1 visible.2 (fun _ => columns) ?_
    exact corresponds_of_alike alike rfl noNewline
      (fun _ member => later.symbol_ne_endOfInput member) corresponds

/-- A line drawn anew is read with corresponding tokens. -/
theorem LineRedrawn.exists_passage
    {other : Text} {indents : Indents}
    (redrawn : LineRedrawn scale line other)
    (passage : Passage file ⟨start, 0, false, true⟩ line tokens indents last [])
    (atStart : start.column = 1)
    (alsoAtStart : place.column = 1) :
    ∃ others records final, Passage file ⟨place, 0, false, true⟩ other others records final [] ∧
      final.inLine = last.inLine ∧ LinesCorrespond scale tokens others last.inLine := by
  cases redrawn with
  | @line indent margin body tail indentBlank marginBlank visible noFeed idle columns =>
    have column {blanks : Text} {start : Position} (atStart : start.column = 1)
        (areBlank : ∀ code ∈ blanks, isBlank code = true) :
        (start.advanceBy blanks).column = blanks.length + 1 := by
      have inLine : ∀ code ∈ blanks, code ≠ .scalar '\n' := fun code member =>
        ne_newline_of_isBlank (areBlank code member)
      rw [Position.advanceBy_column_add inLine, atStart, Nat.add_comm]
    rw [← column atStart indentBlank, ← column alsoAtStart marginBlank] at columns
    obtain ⟨others, records, final, moved, same, corresponds⟩ :=
      exists_passage_of_moved (passage.behind_blanks indentBlank) visible noFeed columns
    obtain ⟨stop, longer, sameLine⟩ := moved.append_idle rfl rfl idle
    exact ⟨others, records, stop, longer.through_blanks marginBlank, sameLine.trans same,
      corresponds⟩

/-! ## The tokens of a source drawn anew -/

theorem corresponds_endTokens (same : final.inLine = last.inLine) :
    Corresponds scale .sameSymbol [] [] (!last.inLine) (endTokens file last)
      (endTokens file final) := by
  unfold endTokens
  rw [same]
  cases last.inLine with
  | true => exact .newline rfl rfl (.ending rfl rfl)
  | false => exact .ending rfl rfl

theorem corresponds_closing
    {more moreOthers : List Token}
    (same : final.inLine = last.inLine)
    (later : Corresponds scale .sameSymbol [] [] true more moreOthers) :
    Corresponds scale .sameSymbol [] [] (!last.inLine) (closing file last ++ more)
      (closing file final ++ moreOthers) := by
  unfold closing
  rw [same]
  cases last.inLine with
  | true => exact .newline rfl rfl later
  | false => exact later

/-- The newline at the end of a source may as well come from a line feed. -/
theorem corresponds_endTokens_closing
    {idle : Reader}
    (same : final.inLine = last.inLine)
    (empty : idle.inLine = false) :
    Corresponds scale .sameSymbol [] [] (!last.inLine) (endTokens file last)
      (closing file final ++ endTokens file idle) := by
  unfold endTokens closing
  rw [same, empty]
  cases last.inLine with
  | true => exact .newline rfl rfl (.ending rfl rfl)
  | false => exact .ending rfl rfl

/-- Idle lines hold nothing but the end of input. -/
theorem readFrom_idle
    (file : Option Text)
    (idle : ∀ text ∈ lines, text.isIdle = true)
    (start : Position) :
    ∃ last, last.inLine = false ∧
      readFrom file ⟨start, 0, false, true⟩ (Text.join [.scalar '\n'] lines) =
        ⟨endTokens file last, [], none⟩ := by
  induction lines generalizing start with
  | nil => exact ⟨_, rfl, readFrom_nil ..⟩
  | cons line lines hypothesis =>
    obtain ⟨here, later⟩ := List.forall_mem_cons.mp idle
    obtain ⟨stop, passage⟩ := Passage.idle file here start false true
    cases lines with
    | nil =>
      refine ⟨⟨stop, 0, false, true⟩, rfl, ?_⟩
      rw [Text.join, passage.readFrom_eq, readFrom_nil]
      rfl
    | cons second lines =>
      obtain ⟨last, empty, read⟩ :=
        hypothesis later (stop.advance (.scalar '\n'))
      refine ⟨last, empty, ?_⟩
      rw [Text.join_cons (List.cons_ne_nil _ _), List.singleton_append,
        passage.readFrom_line rfl, read]
      rfl

/-- A source drawn anew is accepted, with corresponding tokens. -/
theorem Redrawn.corresponds
    (redrawn : Redrawn scale lines others)
    (atStart : start.column = 1)
    (alsoAtStart : place.column = 1)
    (accepted : (readFrom file ⟨start, 0, false, true⟩
      (Text.join [.scalar '\n'] lines)).failure = none) :
    (readFrom file ⟨place, 0, false, true⟩ (Text.join [.scalar '\n'] others)).failure = none ∧
      Corresponds scale .sameSymbol [] [] true
        (readFrom file ⟨start, 0, false, true⟩ (Text.join [.scalar '\n'] lines)).tokens
        (readFrom file ⟨place, 0, false, true⟩ (Text.join [.scalar '\n'] others)).tokens := by
  induction redrawn generalizing start place with
  | @ends line other idle lineRedrawn areIdle =>
    obtain ⟨tokens, indents, last, passage⟩ := exists_passage accepted
    obtain ⟨others, records, final, moved, same, corresponds⟩ :=
      lineRedrawn.exists_passage passage atStart alsoAtStart
    rw [passage.readFrom_eq, readFrom_nil]
    cases idle with
    | nil =>
      rw [Text.join, moved.readFrom_eq, readFrom_nil]
      exact ⟨rfl, corresponds _ _ (corresponds_endTokens same)⟩
    | cons text idle =>
      obtain ⟨idleLast, empty, read⟩ :=
        readFrom_idle file areIdle (final.position.advance (.scalar '\n'))
      rw [Text.join_cons (List.cons_ne_nil _ _), List.singleton_append,
        moved.readFrom_line rfl, read]
      simp only [after, List.append_assoc]
      exact ⟨trivial, corresponds _ _ (corresponds_endTokens_closing same empty)⟩
  | @line line other lines others lineRedrawn later hypothesis =>
    rw [Text.join_cons later.ne_nil.1, List.singleton_append] at accepted ⊢
    rw [Text.join_cons later.ne_nil.2, List.singleton_append]
    obtain ⟨tokens, indents, last, passage⟩ := exists_passage_of_line accepted
    obtain ⟨otherTokens, records, final, moved, same, corresponds⟩ :=
      lineRedrawn.exists_passage passage atStart alsoAtStart
    rw [passage.readFrom_line rfl] at accepted ⊢
    rw [moved.readFrom_line rfl]
    have next : (last.position.advance (.scalar '\n')).column = 1 := rfl
    have alsoNext : (final.position.advance (.scalar '\n')).column = 1 := rfl
    obtain ⟨alsoAccepted, rests⟩ := hypothesis next alsoNext accepted
    simp only [after, List.append_assoc]
    exact ⟨alsoAccepted, corresponds _ _ (corresponds_closing same rests)⟩
  | @before idle lines others isIdle later hypothesis =>
    obtain ⟨stop, passage⟩ := Passage.idle file isIdle place false true
    rw [Text.join_cons later.ne_nil.2, List.singleton_append, passage.readFrom_line rfl]
    exact hypothesis atStart rfl accepted

/-! ## Ways to draw a source anew -/

theorem lineRedrawn_of_margin
    {margin : Text}
    (noFeed : ∀ code ∈ line, code ≠ .scalar '\n')
    (marginBlank : ∀ code ∈ margin, isBlank code = true)
    (idle : tail.isIdle = true)
    (columns : scale.takes ((line.takeWhile isBlank).length + 1) (margin.length + 1)) :
    LineRedrawn scale line (margin ++ (line.dropWhile isBlank ++ tail)) := by
  have indentBlank : ∀ code ∈ line.takeWhile isBlank, isBlank code = true := fun code member =>
    List.all_eq_true.mp List.all_takeWhile code member
  have visible : ∀ code, (line.dropWhile isBlank).head? = some code → isBlank code = false := by
    intro code isFirst
    have notBlank := List.head?_dropWhile_not isBlank line
    rw [isFirst] at notBlank
    simpa using notBlank
  have inBody : ∀ code ∈ line.dropWhile isBlank, code ≠ .scalar '\n' := fun code member =>
    noFeed code ((List.dropWhile_suffix _).subset member)
  have redrawn := LineRedrawn.line indentBlank marginBlank visible inBody idle columns
  rwa [List.takeWhile_append_dropWhile] at redrawn

/-- A line keeps its place, and idle text may come behind it. -/
theorem lineRedrawn_append
    (noFeed : ∀ code ∈ line, code ≠ .scalar '\n')
    (idle : tail.isIdle = true) :
    LineRedrawn .same line (line ++ tail) := by
  have redrawn : LineRedrawn .same line
      (line.takeWhile isBlank ++ (line.dropWhile isBlank ++ tail)) :=
    lineRedrawn_of_margin noFeed
      (fun code member => List.all_eq_true.mp List.all_takeWhile code member) idle rfl
  rwa [← List.append_assoc, List.takeWhile_append_dropWhile] at redrawn

theorem lineRedrawn_refl (noFeed : ∀ code ∈ line, code ≠ .scalar '\n') :
    LineRedrawn .same line line := by
  have redrawn : LineRedrawn .same line (line ++ []) := lineRedrawn_append noFeed rfl
  rwa [List.append_nil] at redrawn

/-- Lines are drawn anew one by one. -/
theorem redrawn_map
    {draw : Text → Text}
    (nonempty : lines ≠ [])
    (each : ∀ line ∈ lines, LineRedrawn scale line (draw line)) :
    Redrawn scale lines (lines.map draw) := by
  induction lines with
  | nil => exact (nonempty rfl).elim
  | cons line lines hypothesis =>
    obtain ⟨here, later⟩ := List.forall_mem_cons.mp each
    cases lines with
    | nil => exact .ends here (List.forall_mem_nil _)
    | cons => exact .line here (hypothesis (List.cons_ne_nil _ _) later)

theorem redrawn_refl
    (nonempty : lines ≠ [])
    (noFeed : ∀ line ∈ lines, ∀ code ∈ line, code ≠ .scalar '\n') :
    Redrawn .same lines lines := by
  have redrawn : Redrawn .same lines (lines.map id) :=
    redrawn_map nonempty fun line member => lineRedrawn_refl (noFeed line member)
  rwa [List.map_id] at redrawn

/-- Idle lines may come in anywhere. -/
theorem redrawn_insert
    {before idle behind : List Text}
    (nonempty : before ++ behind ≠ [])
    (noFeed : ∀ line ∈ before ++ behind, ∀ code ∈ line, code ≠ .scalar '\n')
    (areIdle : ∀ text ∈ idle, text.isIdle = true) :
    Redrawn .same (before ++ behind) (before ++ idle ++ behind) := by
  induction before with
  | nil =>
    rw [List.nil_append] at nonempty noFeed
    induction idle with
    | nil => exact redrawn_refl nonempty noFeed
    | cons text idle hypothesis =>
      obtain ⟨here, later⟩ := List.forall_mem_cons.mp areIdle
      exact .before here (hypothesis later)
  | cons line before hypothesis =>
    obtain ⟨inLine, later⟩ := List.forall_mem_cons.mp noFeed
    by_cases last : before ++ behind = []
    · obtain ⟨rfl, rfl⟩ := List.append_eq_nil_iff.mp last
      rw [List.append_nil, List.append_nil]
      exact .ends (lineRedrawn_refl inLine) areIdle
    · exact .line (lineRedrawn_refl inLine) (hypothesis last later)

/-- Idle text may come behind any line. -/
theorem redrawn_modify
    (nonempty : lines ≠ [])
    (noFeed : ∀ line ∈ lines, ∀ code ∈ line, code ≠ .scalar '\n')
    (idle : tail.isIdle = true)
    (index : Nat) :
    Redrawn .same lines (lines.modify index (· ++ tail)) := by
  induction lines generalizing index with
  | nil => exact (nonempty rfl).elim
  | cons line lines hypothesis =>
    obtain ⟨inLine, later⟩ := List.forall_mem_cons.mp noFeed
    cases index with
    | zero =>
      rw [List.modify_zero_cons]
      cases lines with
      | nil => exact .ends (lineRedrawn_append inLine idle) (List.forall_mem_nil _)
      | cons =>
        exact .line (lineRedrawn_append inLine idle)
          (redrawn_refl (List.cons_ne_nil _ _) later)
    | succ index =>
      rw [List.modify_succ_cons]
      cases lines with
      | nil =>
        rw [List.modify_nil]
        exact .ends (lineRedrawn_refl inLine) (List.forall_mem_nil _)
      | cons =>
        exact .line (lineRedrawn_refl inLine)
          (hypothesis (List.cons_ne_nil _ _) later index)

/-! ## Layout of a source drawn anew -/

/-- Two sources have the same blocks: their layouts have the same symbols, or both are refused
for a dedent to no enclosing block. -/
def SameBlocks (file : Option Text) (source other : Text) : Prop :=
  (∃ laid others, layoutTokens file source = .ok laid ∧ layoutTokens file other = .ok others ∧
    others.map (·.symbol) = laid.map (·.symbol)) ∨
  ∃ fault otherFault, layoutTokens file source = .error (.fault fault) ∧
    layoutTokens file other = .error (.fault otherFault) ∧
    fault.cause.code = "E150" ∧ otherFault.cause.code = "E150"

/-- An accepted source is laid out by the columns of its tokens. -/
theorem layoutTokens_eq_of_tokenize (accepted : (tokenize file source).failure = none) :
    layoutTokens file source =
      Failure.lift (resolve [] (readFrom file .initial source).tokens) := by
  obtain ⟨tokens, indents, last, passage⟩ := exists_passage_of_tokenize accepted
  rw [layoutTokens_eq_of_passage passage, passage.readFrom_eq, readFrom_nil]
  rfl

theorem sameBlocks_of_agrees
    {other : Text} {others : List Token}
    (agrees : Agrees scale .sameSymbol [] [] tokens others
      (resolve [] (readFrom file .initial source).tokens)
      (resolve [] (readFrom file .initial other).tokens))
    (accepted : (tokenize file source).failure = none)
    (alsoAccepted : (tokenize file other).failure = none) :
    SameBlocks file source other := by
  unfold SameBlocks
  rw [layoutTokens_eq_of_tokenize accepted, layoutTokens_eq_of_tokenize alsoAccepted]
  generalize resolve [] (readFrom file .initial source).tokens = first,
    resolve [] (readFrom file .initial other).tokens = second at agrees ⊢
  cases agrees with
  | laid alike => exact .inl ⟨_, _, rfl, rfl, Likeness.map_symbol_eq alike⟩
  | refused => exact .inr ⟨_, _, rfl, rfl, rfl, rfl⟩

/-- A source drawn anew is accepted and has the same blocks. -/
theorem Redrawn.sameBlocks
    (redrawn : Redrawn scale (source.splitOn (.scalar '\n')) others)
    (accepted : (tokenize file source).failure = none) :
    (tokenize file (Text.join [.scalar '\n'] others)).failure = none ∧
      SameBlocks file source (Text.join [.scalar '\n'] others) := by
  have read : (readFrom file .initial source).failure = none := Option.map_eq_none_iff.mp accepted
  have start : Position.origin.column = 1 := rfl
  rw [← Text.join_splitOn source (.scalar '\n')] at read
  obtain ⟨alsoRead, corresponds⟩ := redrawn.corresponds start start read
  have alsoAccepted : (tokenize file (Text.join [.scalar '\n'] others)).failure = none :=
    Option.map_eq_none_iff.mpr alsoRead
  rw [Text.join_splitOn] at corresponds
  exact ⟨alsoAccepted, sameBlocks_of_agrees (resolve_agrees corresponds) accepted alsoAccepted⟩

end Layout

end Offside
