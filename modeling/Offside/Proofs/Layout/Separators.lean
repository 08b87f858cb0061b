import Offside.Proofs.Layout.Dedents
import Offside.Proofs.Layout.Nesting

namespace Offside

/-!
# What stands behind a separator

An item separator is put out for the first token of a line, before the layout looks at the token
itself.  Where that token closes a bracket, the block that the separator belongs to is inside the
bracket and ends with it: the separator is followed by the ends of blocks, and no item comes.
Behind every other separator stands the first token of the next item.
-/

open TokenStream

namespace Layout

/-- A token starts a line of a list; the flag says whether the list itself starts one. -/
inductive StartsLine : (starts : Bool) → List Token → Token → Prop where
  | here
      {token : Token} {rest : List Token} :
      StartsLine true (token :: rest) token
  | newline
      {starts : Bool} {newline token : Token} {rest : List Token} :
      newline.symbol = .mark .newline →
      StartsLine true rest token →
      StartsLine starts (newline :: rest) token
  | later
      {starts : Bool} {other token : Token} {rest : List Token} :
      StartsLine false rest token →
      StartsLine starts (other :: rest) token

theorem StartsLine.append
    {starts : Bool} {tokens : List Token} {token : Token}
    (startsLine : StartsLine starts tokens token)
    (more : List Token) :
    StartsLine starts (tokens ++ more) token := by
  induction startsLine with
  | here => exact .here
  | newline isNewline _ hypothesis => exact .newline isNewline hypothesis
  | later _ hypothesis => exact .later hypothesis

/-- A separator is put out for a token of a list: the token starts a line, and between the two
stand the ends of blocks if the token closes a bracket, and nothing otherwise. -/
structure Announces (starts : Bool) (tokens : List Token) (separator : Token) (ends : List Token)
    (token : Token) : Prop where
  startsLine : StartsLine starts tokens token
  visible : token.isVisible = true
  noLayout : token.symbol.isLayout = false
  place : separator.span = token.span.atStart
  blockEnds : ∀ mark ∈ ends, mark.symbol = .mark .blockEnd
  closing : ends = [] ↔ Delimiter.bracket.closes token.symbol = false

/-- Every separator of an output announces a token that comes behind it. -/
def Separates (starts : Bool) (tokens : List Token) : List Token → Prop
  | [] => True
  | mark :: rest =>
    (mark.symbol = .mark .itemSeparator → ∃ ends token more, rest = ends ++ token :: more ∧
      Announces starts tokens mark ends token) ∧
    Separates starts tokens rest

namespace Separates

variable {starts others : Bool} {tokens more front out : List Token}

theorem mono
    (separates : Separates starts tokens out)
    (startsLine : ∀ token, StartsLine starts tokens token → StartsLine others more token) :
    Separates others more out := by
  induction out with
  | nil => trivial
  | cons mark rest hypothesis =>
    refine ⟨fun isSeparator => ?_, hypothesis separates.2⟩
    obtain ⟨ends, token, behind, shape, announces⟩ := separates.1 isSeparator
    exact ⟨ends, token, behind, shape,
      { announces with startsLine := startsLine token announces.startsLine }⟩

theorem prepend
    (noSeparator : ∀ token ∈ front, token.symbol ≠ .mark .itemSeparator)
    (separates : Separates starts tokens out) :
    Separates starts tokens (front ++ out) := by
  induction front with
  | nil => exact separates
  | cons token front hypothesis =>
    obtain ⟨notHere, notLater⟩ := List.forall_mem_cons.mp noSeparator
    exact ⟨fun isSeparator => (notHere isSeparator).elim, hypothesis notLater⟩

theorem append (first : Separates starts tokens front) (second : Separates starts tokens out) :
    Separates starts tokens (front ++ out) := by
  induction front with
  | nil => exact second
  | cons mark rest hypothesis =>
    refine ⟨fun isSeparator => ?_, hypothesis first.2⟩
    obtain ⟨ends, token, behind, rfl, announces⟩ := first.1 isSeparator
    exact ⟨ends, token, behind ++ out, by simp, announces⟩

theorem behind
    {before after : List Token} {separator : Token}
    (separates : Separates starts tokens (before ++ separator :: after))
    (isSeparator : separator.symbol = .mark .itemSeparator) :
    ∃ ends token rest, after = ends ++ token :: rest ∧
      Announces starts tokens separator ends token := by
  induction before with
  | nil => exact separates.1 isSeparator
  | cons mark before hypothesis => exact hypothesis separates.2

end Separates

/-! ## Where separators and ends of blocks come from -/

variable {indents : Indents} {program column : Nat} {inner left : List Context}
  {stack : Stack} {marks : List Mark} {token : Token}

theorem symbol_ne_itemSeparator_marksAt (noSeparator : .itemSeparator ∉ marks) (token : Token) :
    ∀ mark ∈ marksAt token marks, mark.symbol ≠ .mark .itemSeparator := by
  intro mark member isSeparator
  obtain ⟨other, isMark, rfl⟩ := List.mem_map.mp member
  cases isSeparator
  exact noSeparator isMark

/-- A dedent puts out a separator at the end if it lands at a block, and ends of blocks
otherwise. -/
theorem Dedents.marks_eq (dedents : Dedents column program inner marks left) :
    ∃ count, marks = List.replicate count .blockEnd ∨
      marks = List.replicate count .blockEnd ++ [.itemSeparator] ∧
        (Stack.topColumn? ⟨program, left⟩).isSome = true := by
  induction dedents with
  | program | item => exact ⟨0, .inr ⟨rfl, rfl⟩⟩
  | bracket => exact ⟨0, .inl rfl⟩
  | close _ _ hypothesis =>
    obtain ⟨count, rfl | ⟨rfl, atBlock⟩⟩ := hypothesis
    · exact ⟨count + 1, .inl rfl⟩
    · exact ⟨count + 1, .inr ⟨rfl, atBlock⟩⟩

/-- A separator is the last mark before the first token of a line, and is put out in a block. -/
theorem arrive_separator
    {state : State}
    (arrives : arrive indents state token = some (marks, stack))
    (member : .itemSeparator ∈ marks) :
    state.atLineStart = true ∧ stack.topColumn?.isSome = true ∧
      ∃ ends, marks = ends ++ [.itemSeparator] ∧ .itemSeparator ∉ ends := by
  obtain ⟨before, previous, atLineStart⟩ := state
  cases before with
  | none =>
    cases arrives
    cases member
  | some before =>
    cases atLineStart with
    | false =>
      cases arrives
      cases member
    | true =>
      refine ⟨rfl, ?_⟩
      obtain ⟨-, rfl, -⟩ | ⟨rfl, -⟩ | ⟨sameProgram, dedents⟩ := startLine_cases arrives
      · cases List.mem_singleton.mp member
      · cases member
      · obtain ⟨program, inner⟩ := stack
        cases sameProgram
        have noSeparator (count : Nat) : .itemSeparator ∉ List.replicate count Mark.blockEnd :=
          fun isIn => Mark.noConfusion (List.eq_of_mem_replicate isIn)
        obtain ⟨count, rfl | ⟨rfl, atBlock⟩⟩ := dedents.marks_eq
        · exact (noSeparator count member).elim
        · exact ⟨atBlock, _, rfl, noSeparator count⟩

/-- Closing a bracket ends the blocks inside it; there is none if the bracket is innermost. -/
theorem closeBracket_marks (closes : closeBracket inner = some (marks, left)) :
    (∀ mark ∈ marks, mark = .blockEnd) ∧
      ((Stack.topColumn? ⟨program, inner⟩).isSome = true → marks ≠ []) := by
  induction inner generalizing marks with
  | nil => cases closes
  | cons context outer hypothesis =>
    cases context with
    | bracket =>
      cases closes
      exact ⟨List.forall_mem_nil _, fun atBlock => Bool.noConfusion atBlock⟩
    | block start =>
      obtain ⟨⟨more, rest⟩, closesOuter, same⟩ := Option.map_eq_some_iff.mp closes
      cases same
      refine ⟨List.forall_mem_cons.mpr ⟨rfl, ?_⟩, fun _ => List.cons_ne_nil _ _⟩
      exact (hypothesis closesOuter).1

/-- In a block, a token brings ends of blocks exactly if it closes a bracket, as long as one is
open where it does. -/
theorem passBracket_marks
    (closable : Delimiter.bracket.closes token.symbol = true → 0 < stack.brackets) :
    (∀ mark ∈ (passBracket stack token).1, mark = .blockEnd) ∧
      (stack.topColumn?.isSome = true →
        ((passBracket stack token).1 = [] ↔ Delimiter.bracket.closes token.symbol = false)) := by
  unfold passBracket
  cases isSymbol : token.symbol with
  | mark mark =>
    rw [isSymbol] at closable
    by_cases opens : mark.opensBracket = true
    · have noClosing : Delimiter.bracket.closes (.mark mark) = false :=
        Delimiter.closes_of_opens opens
      simp [opens, noClosing]
    by_cases closes : mark.closesBracket = true
    · have spec := closeBracket_spec stack.inner
      cases found : closeBracket stack.inner with
      | none =>
        rw [found] at spec
        have noBracket : stack.brackets = 0 := spec
        exact absurd noBracket (Nat.ne_of_gt (closable closes))
      | some pair =>
        obtain ⟨areEnds, inBlock⟩ := closeBracket_marks found
        simp only [opens, closes, Bool.false_eq_true, if_false, if_true]
        refine ⟨areEnds, fun atBlock => ?_⟩
        exact iff_of_false (inBlock atBlock) (Bool.not_eq_false _ ▸ closes)
    · have noClosing : Delimiter.bracket.closes (.mark mark) = false :=
        Bool.eq_false_iff.mpr closes
      simp [opens, closes, noClosing]
  | _ => exact ⟨List.forall_mem_nil _, fun _ => iff_of_true rfl rfl⟩

/-- Every separator of a run announces a token, if no token closes a bracket where none is
open. -/
theorem Run.separates
    {state last : State} {tokens out : List Token}
    (run : Run indents state tokens out last)
    (markFree : ∀ token ∈ tokens, token.symbol.isLayout = false)
    (ahead : Ahead state.brackets (tokens.map (·.symbol))) :
    Separates state.atLineStart tokens out := by
  induction run with
  | done => trivial
  | newline isNewline _ hypothesis =>
    rw [List.map_cons, isNewline] at ahead
    have later := hypothesis
      (fun token member => markFree token (List.mem_cons_of_mem _ member)) (ahead.behind rfl)
    exact later.mono fun token => .newline isNewline
  | @token state last token rest out lineMarks stack notNewline notEnd arrives _
      hypothesis =>
      obtain ⟨noLayout, restFree⟩ := List.forall_mem_cons.mp markFree
      rw [List.map_cons, ← (brackets_of_arrive arrives).1] at ahead
      have later := hypothesis restFree
        (ahead.behind (brackets_passBracket ahead.closable))
      obtain ⟨areEnds, inBlock⟩ := passBracket_marks ahead.closable
      have noSeparator : .itemSeparator ∉ (passBracket stack token).1 :=
        fun member => Mark.noConfusion (areEnds _ member)
      have fromToken : Separates state.atLineStart (token :: rest) (token :: out) := by
        refine ⟨fun isSeparator => ?_, later.mono fun _ => .later⟩
        rw [isSeparator] at noLayout
        cases noLayout
      have fromEnds : Separates state.atLineStart (token :: rest)
          (marksAt token (passBracket stack token).1 ++ token :: out) :=
        fromToken.prepend (symbol_ne_itemSeparator_marksAt noSeparator token)
      rw [List.append_assoc]
      by_cases member : .itemSeparator ∈ lineMarks
      · obtain ⟨startsHere, atBlock, ends, rfl, notBefore⟩ := arrive_separator arrives member
        rw [marksAt, List.map_append, List.append_assoc]
        refine Separates.prepend (symbol_ne_itemSeparator_marksAt notBefore token) ?_
        refine ⟨fun _ => ⟨_, token, out, rfl, ?_⟩, fromEnds⟩
        exact {
          startsLine := startsHere ▸ .here
          visible := Token.isVisible_iff.mpr ⟨notNewline, notEnd⟩
          noLayout := noLayout
          place := rfl
          blockEnds := by
            intro mark isEnd
            obtain ⟨other, isMark, rfl⟩ := List.mem_map.mp isEnd
            exact congrArg Symbol.mark (areEnds other isMark)
          closing := List.map_eq_nil_iff.trans (inBlock atBlock)
        }
      · exact fromEnds.prepend (symbol_ne_itemSeparator_marksAt member token)

end Layout

open Layout

/-- The tokens of a passage are no marks of block structure. -/
theorem TokenStream.Passage.isLayout_eq_false
    {file : Option Text} {reader last : Reader} {text rest : Text} {tokens : List Token}
    {indents : List (Nat × Nat)}
    (passage : Passage file reader text tokens indents last rest) :
    ∀ token ∈ tokens, token.symbol.isLayout = false := by
  intro token member
  rcases passage.symbol_of_mem member with isNewline | spelled
  · rw [isNewline]
    rfl
  · cases isSymbol : token.symbol with
    | mark mark =>
      cases mark <;> first | rfl | exact (spelled _ isSymbol rfl).elim
    | _ => rfl

theorem Layout.itemSeparator_not_mem_closeAll (inner : List Context) :
    .itemSeparator ∉ closeAll inner := by
  intro member
  obtain ⟨context, -, closes⟩ := List.mem_filterMap.mp member
  cases context <;> cases closes

/-- The layout of a source whose brackets are never closed too often: every separator announces
a token. -/
theorem separates_of_layoutTokens
    {file : Option Text} {source : Text} {laid : List Token}
    (accepted : layoutTokens file source = .ok laid)
    (ahead : Ahead 0 ((tokenize file source).tokens.map (·.symbol))) :
    Separates false (tokenize file source).tokens laid := by
  obtain ⟨tokens, indents, last, passage⟩ :=
    exists_passage_of_tokenize (failure_eq_none_of_layoutTokens accepted)
  rw [layoutTokens_eq_of_passage passage, resolve] at accepted
  rw [tokenize_eq_of_passage passage] at ahead ⊢
  cases resolved : resolveFrom [] .initial (tokens ++ endTokens file last) with
  | error fault =>
    rw [resolved] at accepted
    cases accepted
  | ok result =>
    obtain ⟨out, state, run⟩ :=
      exists_run (fun _ member => passage.symbol_ne_endOfInput member) resolved
    obtain ⟨final, isEnd, closed⟩ := resolveFrom_endTokens [] state file last
    rw [run.resolveFrom_eq, closed] at accepted
    cases accepted
    have aheadHere : Ahead 0 (tokens.map (·.symbol)) := by
      intro front isFront
      refine ahead front (isFront.trans ?_)
      rw [List.map_append]
      exact List.prefix_append _ _
    have body : Separates false (tokens ++ endTokens file last) out :=
      (run.separates passage.isLayout_eq_false aheadHere).mono
        fun _ startsLine => startsLine.append _
    refine body.append (Separates.prepend ?_ ⟨fun isSeparator => ?_, trivial⟩)
    · exact symbol_ne_itemSeparator_marksAt (itemSeparator_not_mem_closeAll _) final
    · rw [isEnd] at isSeparator
      cases isSeparator

/-- Whether a symbol can belong to an item of a block: it is no mark of block structure, closes
no bracket and is not the end of input. -/
def Symbol.belongsToItem (symbol : Symbol) : Bool :=
  !symbol.isLayout && !Delimiter.bracket.closes symbol && symbol != .mark .endOfInput

/-- In the layout of a source with balanced brackets, every separator is put out for the first
token of a line.  It is followed at once by a token of an item exactly if that token closes no
bracket; otherwise the ends of the blocks inside the bracket come between. -/
theorem separator_parts_items_unless_bracket_closes
    (file : Option Text)
    (source : Text)
    (laid before after : List Token)
    (separator : Token)
    (accepted : layoutTokens file source = .ok laid)
    (balanced : Delimiter.bracket.Balances ((tokenize file source).tokens.map (·.symbol)))
    (shape : laid = before ++ separator :: after)
    (isSeparator : separator.symbol = .mark .itemSeparator) :
    ∃ ends token rest, after = ends ++ token :: rest ∧
      Announces false (tokenize file source).tokens separator ends token ∧
      (after.head?.any (·.symbol.belongsToItem) = true ↔
        Delimiter.bracket.closes token.symbol = false) := by
  have ahead : Ahead 0 ((tokenize file source).tokens.map (·.symbol)) := by
    intro front isFront
    rw [Nat.zero_add]
    exact balanced.ahead front isFront
  have separates := separates_of_layoutTokens accepted ahead
  rw [shape] at separates
  obtain ⟨ends, token, rest, rfl, announces⟩ := separates.behind isSeparator
  refine ⟨ends, token, rest, rfl, announces, ?_⟩
  cases ends with
  | nil =>
    have closesNone := announces.closing.mp rfl
    have notEnd := (Token.isVisible_iff.mp announces.visible).2
    simp [Symbol.belongsToItem, announces.noLayout, closesNone, notEnd]
  | cons mark ends =>
    have isEnd : mark.symbol = .mark .blockEnd := announces.blockEnds mark List.mem_cons_self
    have closes : Delimiter.bracket.closes token.symbol ≠ false := fun closesNone =>
      List.cons_ne_nil _ _ (announces.closing.mpr closesNone)
    refine iff_of_false ?_ closes
    simp [Symbol.belongsToItem, isEnd, Symbol.isLayout, Mark.isLayout]

/-- A function in parentheses that are closed on a line of their own, in the column of its
body. -/
def parensClosedInBlock : Text :=
  "(fun x ->\n  x\n  )"

/-- Its layout has a separator in front of the end of the block. -/
theorem exists_separator_parensClosedInBlock :
    ∃ before separator after,
      layoutTokens none parensClosedInBlock = .ok (before ++ separator :: after) ∧
      separator.symbol = .mark .itemSeparator ∧
      after.map (·.symbol) = [.mark .blockEnd, .mark .closeParen, .mark .endOfInput] := by
  have symbols : (layoutTokens none parensClosedInBlock).map (·.map (·.symbol)) =
      .ok ([.mark .openParen, .mark .funWord, .identifier "x", .mark .arrow, .mark .blockStart,
          .identifier "x"] ++ .mark .itemSeparator ::
        [.mark .blockEnd, .mark .closeParen, .mark .endOfInput]) := by
    decide +kernel
  cases accepted : layoutTokens none parensClosedInBlock with
  | error failure =>
    rw [accepted] at symbols
    cases symbols
  | ok laid =>
    rw [accepted] at symbols
    obtain ⟨before, behind, rfl, -, isBehind⟩ :=
      List.map_eq_append_iff.mp (Except.ok.inj symbols)
    obtain ⟨separator, after, rfl, isSeparator, isAfter⟩ := List.map_eq_cons_iff.mp isBehind
    exact ⟨before, separator, after, rfl, isSeparator, isAfter⟩

theorem balances_parensClosedInBlock :
    Delimiter.bracket.Balances ((tokenize none parensClosedInBlock).tokens.map (·.symbol)) := by
  decide +kernel

/-- The separator in front of the closing parenthesis announces the parenthesis. -/
theorem separator_parts_items_unless_bracket_closes_inParens :
    ∃ before separator after ends token rest,
      layoutTokens none parensClosedInBlock = .ok (before ++ separator :: after) ∧
      separator.symbol = .mark .itemSeparator ∧
      Delimiter.bracket.Balances ((tokenize none parensClosedInBlock).tokens.map (·.symbol)) ∧
      after.map (·.symbol) = [.mark .blockEnd, .mark .closeParen, .mark .endOfInput] ∧
      after = ends ++ token :: rest ∧
      Announces false (tokenize none parensClosedInBlock).tokens separator ends token ∧
      (after.head?.any (·.symbol.belongsToItem) = true ↔
        Delimiter.bracket.closes token.symbol = false) := by
  obtain ⟨before, separator, after, accepted, isSeparator, isAfter⟩ :=
    exists_separator_parensClosedInBlock
  obtain ⟨ends, token, rest, shape, announces, parts⟩ :=
    separator_parts_items_unless_bracket_closes none parensClosedInBlock _ before after
      separator accepted balances_parensClosedInBlock rfl isSeparator
  exact ⟨before, separator, after, ends, token, rest, accepted, isSeparator,
    balances_parensClosedInBlock, isAfter, shape, announces, parts⟩

/-- A line that starts with a closing parenthesis is taken for the next item of the block that
the parenthesis ends: behind the separator no token of an item comes. -/
theorem separator_before_block_end :
    Delimiter.bracket.Balances ((tokenize none parensClosedInBlock).tokens.map (·.symbol)) ∧
    ∃ before separator after,
      layoutTokens none parensClosedInBlock = .ok (before ++ separator :: after) ∧
      separator.symbol = .mark .itemSeparator ∧
      after.head?.any (·.symbol.belongsToItem) = false := by
  refine ⟨balances_parensClosedInBlock, ?_⟩
  obtain ⟨before, separator, after, accepted, isSeparator, isAfter⟩ :=
    exists_separator_parensClosedInBlock
  obtain ⟨next, rest, rfl, isNext, -⟩ := List.map_eq_cons_iff.mp isAfter
  refine ⟨before, separator, _, accepted, isSeparator, ?_⟩
  simp [isNext, Symbol.belongsToItem, Symbol.isLayout, Mark.isLayout]

end Offside
