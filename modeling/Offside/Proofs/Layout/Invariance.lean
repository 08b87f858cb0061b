import Mathlib.Order.Interval.Set.Defs
import Mathlib.Order.Monotone.Defs
import Offside.Proofs.Layout.Redrawing

namespace Offside

/-!
# What the layout does not depend on

Idle lines, and idle text at the end of lines, do not change the layout of a source.  Neither do
the columns where its lines start, as long as their order stays the same.
-/

open Layout TokenStream

namespace Text

/-- A source with more lines before the one with a given index, or at its end. -/
def insertLines (source : Text) (index : Nat) (lines : List Text) : Text :=
  let pieces := source.splitOn (.scalar '\n')
  join [.scalar '\n'] (pieces.take index ++ lines ++ pieces.drop index)

/-- A source with a text behind the line with a given index. -/
def appendToLine (source : Text) (index : Nat) (tail : Text) : Text :=
  join [.scalar '\n'] ((source.splitOn (.scalar '\n')).modify index (· ++ tail))

/-- A line with other blanks in front, as many as its column asks for. -/
def reindentLine (width : Nat → Nat) (line : Text) : Text :=
  List.replicate (width ((line.takeWhile isBlank).length + 1)) (.scalar ' ') ++
    line.dropWhile isBlank

/-- A source whose lines have as many blanks in front as their columns ask for. -/
def reindent (width : Nat → Nat) (source : Text) : Text :=
  join [.scalar '\n'] ((source.splitOn (.scalar '\n')).map (reindentLine width))

end Text

/-- Idle lines may come in anywhere, and idle text behind any line: the source is accepted as
before and has the same blocks. -/
theorem idle_text_is_ignored
    (file : Option Text)
    (source : Text)
    (accepted : (tokenize file source).failure = none) :
    (∀ index lines, (∀ line ∈ lines, line.isIdle = true) →
      (tokenize file (source.insertLines index lines)).failure = none ∧
        SameBlocks file source (source.insertLines index lines)) ∧
    ∀ index tail, tail.isIdle = true →
      (tokenize file (source.appendToLine index tail)).failure = none ∧
        SameBlocks file source (source.appendToLine index tail) := by
  have nonempty := List.splitOn_ne_nil (.scalar '\n') source
  have noFeed : ∀ line ∈ source.splitOn (.scalar '\n'), ∀ code ∈ line, code ≠ .scalar '\n' :=
    fun line member => Text.ne_newline_of_mem_splitOn member
  constructor
  · intro index lines areIdle
    have whole := List.take_append_drop index (source.splitOn (.scalar '\n'))
    rw [← whole] at nonempty noFeed
    have redrawn := redrawn_insert nonempty noFeed areIdle
    rw [whole] at redrawn
    exact redrawn.sameBlocks accepted
  · intro index tail idle
    exact (redrawn_modify nonempty noFeed idle index).sameBlocks accepted

/-- A function with its body in a block, and a call of it, without a line feed at the end. -/
def Layout.indentedBody : Text :=
  "let f x =\n  x + [1,\n2][0]\nf 2"

/-- A comment line right behind the opener of a block, and a comment in an open bracket. -/
theorem idle_text_is_ignored_openBlock :
    (tokenize none indentedBody).failure = none ∧ Text.isIdle " \t# \"it's" = true ∧
      indentedBody.insertLines 1 [" \t# \"it's", []] =
        "let f x =\n \t# \"it's\n\n  x + [1,\n2][0]\nf 2" ∧
      SameBlocks none indentedBody (indentedBody.insertLines 1 [" \t# \"it's", []]) ∧
      SameBlocks none indentedBody (indentedBody.appendToLine 1 " \t# \"it's") := by
  have accepted : (tokenize none indentedBody).failure = none := by decide +kernel
  have isIdle : Text.isIdle " \t# \"it's" = true := by decide +kernel
  have areIdle : ∀ line ∈ [Text.ofString " \t# \"it's", []], line.isIdle = true :=
    List.forall_mem_cons.mpr ⟨isIdle, List.forall_mem_singleton.mpr rfl⟩
  have ignored := idle_text_is_ignored none indentedBody accepted
  exact ⟨accepted, isIdle, by decide +kernel, (ignored.1 1 _ areIdle).2, (ignored.2 1 _ isIdle).2⟩

namespace Layout

/-- The rescaling by a function that increases on columns, which count from one. -/
def Rescaling.along (move : Nat → Nat) (increasing : StrictMonoOn move (Set.Ici 1)) :
    Rescaling where
  takes column moved := 1 ≤ column ∧ moved = move column
  lt_iff := by
    rintro column other _ _ ⟨here, rfl⟩ ⟨there, rfl⟩
    exact (increasing.lt_iff_lt here there).symm

/-- Records with every column moved. -/
def moveColumns (move : Nat → Nat) (indents : Indents) : Indents :=
  indents.map fun record => (record.1, move record.2)

variable {file : Option Text} {indents : Indents} {move : Nat → Nat}

/-- The column of a line that is on record is moved with its record. -/
theorem exists_record
    {token : Token}
    (recorded : ∃ record ∈ indents, record.1 = token.span.start.line)
    (move : Nat → Nat) :
    ∃ record ∈ indents, indentOf indents token = record.2 ∧
      indentOf (moveColumns move indents) token = move record.2 := by
  have found : indents.filter (·.1 == token.span.start.line) ≠ [] := by
    obtain ⟨record, member, onLine⟩ := recorded
    exact List.ne_nil_of_mem (List.mem_filter.mpr ⟨member, beq_iff_eq.mpr onLine⟩)
  have isLast := List.getLast?_eq_some_getLast found
  have member := List.mem_of_mem_filter (List.getLast_mem found)
  refine ⟨_, member, ?_, ?_⟩
  · rw [indentOf, isLast]
  · have filtered : (moveColumns move indents).filter (·.1 == token.span.start.line) =
        moveColumns move (indents.filter (·.1 == token.span.start.line)) := by
      rw [moveColumns, List.filter_map]
      rfl
    rw [indentOf, filtered, moveColumns, List.getLast?_map, isLast]
    rfl

end Layout

namespace Position

theorem column_advance_pos (position : Position) (code : CodePoint) :
    1 ≤ (position.advance code).column := by
  unfold advance
  split
  · exact Nat.le_refl 1
  · exact Nat.le_add_left 1 _

theorem column_advanceBy_pos {position : Position} (positive : 1 ≤ position.column) (text : Text) :
    1 ≤ (position.advanceBy text).column := by
  induction text generalizing position with
  | nil => exact positive
  | cons code text hypothesis => exact hypothesis (column_advance_pos ..)

end Position

namespace TokenStream.Passage

variable {file : Option Text} {reader last : Reader} {text rest : Text} {tokens : List Token}
  {indents : List (Nat × Nat)}

/-- Columns count from one. -/
theorem column_pos_of_mem_indents
    (passage : Passage file reader text tokens indents last rest)
    (positive : 1 ≤ reader.position.column) :
    ∀ record ∈ indents, 1 ≤ record.2 := by
  induction passage with
  | done => exact List.forall_mem_nil _
  | lineEnd _ hypothesis
  | emptyLine _ hypothesis => exact hypothesis (Position.column_advance_pos ..)
  | blank _ _ hypothesis => exact hypothesis (Position.column_advance_pos ..)
  | comment _ _ _ hypothesis =>
    exact hypothesis (Position.column_advanceBy_pos positive _)
  | @token start inLine _ _ _ _ _ _ _ _ _ _ _ hypothesis =>
    have later := hypothesis (Position.column_advanceBy_pos positive _)
    refine List.forall_mem_append.mpr ⟨?_, later⟩
    cases inLine with
    | true => exact List.forall_mem_nil _
    | false => exact List.forall_mem_singleton.mpr positive

/-- The tokens of a source correspond to themselves when the records are moved. -/
theorem corresponds_moveColumns
    {move : Nat → Nat}
    (passage : Passage file reader text tokens indents last rest)
    (increasing : StrictMonoOn move (Set.Ici 1))
    {records : Indents}
    (onRecord : ∀ record ∈ indents, record ∈ records)
    (positive : ∀ record ∈ records, 1 ≤ record.2) :
    Corresponds (.along move increasing) .identical records (moveColumns move records)
      (!reader.inLine) (tokens ++ endTokens file last) (tokens ++ endTokens file last) := by
  induction passage with
  | @done reader =>
    unfold endTokens
    cases reader.inLine with
    | true => exact .newline rfl rfl (.ending rfl rfl)
    | false => exact .ending rfl rfl
  | lineEnd _ hypothesis => exact .newline rfl rfl (hypothesis onRecord)
  | emptyLine _ hypothesis => exact hypothesis onRecord
  | blank _ _ hypothesis => exact hypothesis onRecord
  | comment _ _ _ hypothesis => exact hypothesis onRecord
  | @token start inLine _ first tail _ _ symbol _ _ _ scanned _ hypothesis =>
    obtain ⟨here, later⟩ := List.forall_mem_append.mp onRecord
    have visible := Token.isVisible_iff.mp
      (pieceToken_isVisible file scanned (first :: tail) start)
    refine .visible rfl visible.1 visible.2 (fun starts => ?_) (hypothesis later)
    cases inLine with
    | true => cases starts
    | false =>
      have recorded : ∃ record ∈ records,
          record.1 = (pieceToken file symbol (first :: tail) start).span.start.line :=
        ⟨_, here _ List.mem_cons_self, rfl⟩
      obtain ⟨record, member, isColumn, isMoved⟩ := exists_record recorded move
      exact ⟨isColumn ▸ positive record member, isMoved.trans (congrArg move isColumn.symm)⟩

end TokenStream.Passage

namespace Layout

theorem isBlank_of_mem_replicate
    {count : Nat} {code : CodePoint}
    (member : code ∈ List.replicate count (.scalar ' ')) :
    isBlank code = true := by
  rw [List.eq_of_mem_replicate member]
  rfl

/-- A source that is indented anew is drawn anew. -/
theorem exists_redrawn_reindent
    {width : Nat → Nat}
    (increasing : StrictMonoOn width (Set.Ici 1))
    (source : Text) :
    ∃ scale, Redrawn scale (source.splitOn (.scalar '\n'))
      ((source.splitOn (.scalar '\n')).map (Text.reindentLine width)) := by
  -- The column of a line is one more than the number of blanks in front.
  have shifted : StrictMonoOn (fun column => width column + 1) (Set.Ici 1) :=
    fun _ here _ there less => Nat.succ_lt_succ (increasing here there less)
  refine ⟨.along _ shifted, redrawn_map (List.splitOn_ne_nil _ _) fun line member => ?_⟩
  have redrawn : LineRedrawn (.along _ shifted) line (Text.reindentLine width line ++ []) := by
    rw [Text.reindentLine, List.append_assoc]
    exact lineRedrawn_of_margin (Text.ne_newline_of_mem_splitOn member)
      (fun code => isBlank_of_mem_replicate) rfl
      ⟨Nat.le_add_left 1 _, congrArg (· + 1) List.length_replicate⟩
  rwa [List.append_nil] at redrawn

end Layout

/-- The layout looks at the order of columns only: with every recorded column moved by a function
that increases, the same tokens are put out, or the line of the same token is refused; and a
source that is indented anew by such a function has the same blocks. -/
theorem layout_follows_order_of_columns
    (file : Option Text)
    (source : Text)
    (accepted : (tokenize file source).failure = none)
    (move : Nat → Nat)
    (increasing : StrictMonoOn move (Set.Ici 1)) :
    ((∃ laid,
        resolve (tokenize file source).indents (tokenize file source).tokens = .ok laid ∧
          resolve (moveColumns move (tokenize file source).indents) (tokenize file source).tokens =
            .ok laid) ∨
      ∃ token ∈ (tokenize file source).tokens, ∃ column,
        resolve (tokenize file source).indents (tokenize file source).tokens =
            .error (.located (.inconsistentDedent column) token.span) ∧
          resolve (moveColumns move (tokenize file source).indents) (tokenize file source).tokens =
            .error (.located (.inconsistentDedent (move column)) token.span)) ∧
    (tokenize file (source.reindent move)).failure = none ∧
      SameBlocks file source (source.reindent move) := by
  obtain ⟨tokens, indents, last, passage⟩ := exists_passage_of_tokenize accepted
  constructor
  · rw [tokenize_eq_of_passage passage]
    have agrees := resolve_agrees (passage.corresponds_moveColumns increasing (fun _ => id)
      (passage.column_pos_of_mem_indents (Nat.le_refl 1)))
    simp only
    generalize resolve indents _ = first, resolve (moveColumns move indents) _ = second at agrees ⊢
    cases agrees with
    | laid alike =>
      rw [Likeness.identical, List.forall₂_eq_eq_eq] at alike
      exact .inl ⟨_, rfl, congrArg Except.ok alike.symm⟩
    | @refused token other member alike columns =>
      obtain rfl : token = other := alike
      rw [columns.2]
      exact .inr ⟨token, (List.of_mem_zip member).1, _, rfl, rfl⟩
  · obtain ⟨scale, redrawn⟩ := exists_redrawn_reindent increasing source
    exact redrawn.sameBlocks accepted

/-- Every line of the function moved to twice its column. -/
theorem layout_follows_order_of_columns_doubled :
    (tokenize none indentedBody).failure = none ∧ StrictMonoOn (2 * ·) (Set.Ici 1) ∧
      indentedBody.reindent (2 * ·) = "  let f x =\n      x + [1,\n  2][0]\n  f 2" ∧
      SameBlocks none indentedBody (indentedBody.reindent (2 * ·)) := by
  have accepted : (tokenize none indentedBody).failure = none := by decide +kernel
  have increasing : StrictMonoOn (2 * ·) (Set.Ici 1) := fun _ _ _ _ less =>
    Nat.mul_lt_mul_of_pos_left less Nat.two_pos
  exact ⟨accepted, increasing, by decide +kernel,
    (layout_follows_order_of_columns none indentedBody accepted _ increasing).2.2⟩

end Offside
