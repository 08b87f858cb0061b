import Offside.Proofs.Printing.Spelling
import Offside.Proofs.Programs.Reading

namespace Offside

/-!
# Pages

A page is a word as text: a block starts on a new line with two more blanks, an item of a block
on a new line, and the end of a block leaves no trace.  A pen writes a page and keeps track of
the layout; what it can write is read back as the same word.
-/

open Grammar Layout TokenStream

/-! ## The text of a word -/

variable {symbol : Symbol} {mark : Mark}

/-- Where the next terminal of a word is put: in how many blocks, and whether a line starts. -/
structure Page where
  depth : Nat
  lineStart : Bool
deriving Repr, DecidableEq

namespace Page

/-- A new line at a depth. -/
def newLine (depth : Nat) : Text :=
  .scalar '\n' :: List.replicate (2 * depth) (.scalar ' ')

/-- The text of a terminal, and where the next one is put. -/
def put (page : Page) : Terminal → Text × Page
  | .symbol (.mark .blockStart) => (newLine (page.depth + 1), ⟨page.depth + 1, true⟩)
  | .symbol (.mark .itemSeparator) => (newLine page.depth, ⟨page.depth, true⟩)
  | .symbol (.mark .blockEnd) => ([], { page with depth := page.depth - 1 })
  | .symbol shown =>
    ((if page.lineStart then [] else [.scalar ' ']) ++ shown.spelling, ⟨page.depth, false⟩)
  | .indexBracket => ([.scalar '['], ⟨page.depth, false⟩)

/-- The text of a word. -/
def render (page : Page) : Word → Text
  | [] => []
  | terminal :: rest => (page.put terminal).1 ++ (page.put terminal).2.render rest

theorem put_symbol (writable : symbol.writable = true) (page : Page) :
    page.put (.symbol symbol) =
      ((if page.lineStart then [] else [.scalar ' ']) ++ symbol.spelling, ⟨page.depth, false⟩) := by
  unfold put
  split <;> simp_all [Symbol.writable, Mark.spelling?]

/-- Behind a token, a page goes on with a parting sign. -/
theorem parts_render {page : Page} (noLine : page.lineStart = false) (word : Word) :
    Parts (page.render word) := by
  induction word generalizing page with
  | nil => exact .nil
  | cons terminal word hypothesis =>
    rw [render]
    unfold put
    split
    · exact .cons (by decide)
    · exact .cons (by decide)
    · exact hypothesis noLine
    · rw [noLine]
      exact .cons (by decide)
    · exact .cons (by decide)

end Page

/-! ## Contexts of a page -/

/-- What encloses a place of a page. -/
inductive Enclosure where
  | block
  | bracket
deriving Repr, DecidableEq

namespace Enclosure

/-- The number of enclosing blocks. -/
def depth (shape : List Enclosure) : Nat :=
  shape.count .block

/-- The column at which the lines of the innermost block start. -/
def column (shape : List Enclosure) : Nat :=
  2 * depth shape + 1

/-- The contexts of the layout inside the program block. -/
def contexts : List Enclosure → List Context
  | [] => []
  | .block :: outer => .block (column (.block :: outer)) :: contexts outer
  | .bracket :: outer => .bracket :: contexts outer

variable (shape : List Enclosure)

@[simp] theorem depth_block : depth (.block :: shape) = depth shape + 1 :=
  List.count_cons_self

@[simp] theorem depth_bracket : depth (.bracket :: shape) = depth shape :=
  List.count_cons_of_ne (by decide)

@[simp] theorem depth_blocks (count : Nat) :
    depth (List.replicate count .block ++ shape) = count + depth shape := by
  rw [depth, List.count_append, List.count_replicate_self, depth]

theorem innermost_contexts : (Stack.mk 1 (contexts shape)).innermost = column shape := by
  induction shape with
  | nil => rfl
  | cons enclosure shape hypothesis =>
    cases enclosure with
    | block => rfl
    | bracket =>
      rw [column, depth_bracket]
      exact hypothesis

theorem topColumn?_contexts {shape : List Enclosure} (noBracket : shape.head? ≠ some .bracket) :
    (Stack.mk 1 (contexts shape)).topColumn? = some (column shape) := by
  match shape with
  | [] => rfl
  | .block :: _ => rfl
  | .bracket :: _ => exact (noBracket rfl).elim

/-- A line at the column of an enclosing block closes the blocks inside it. -/
theorem dedent_contexts
    {shape : List Enclosure}
    (noBracket : shape.head? ≠ some .bracket)
    (count : Nat) :
    dedent (column shape) 1 (contexts (List.replicate count .block ++ shape)) =
      some (List.replicate count .blockEnd ++ [.itemSeparator], contexts shape) := by
  induction count with
  | zero =>
    match shape with
    | [] => rfl
    | .block :: _ => simp [contexts, dedent]
    | .bracket :: _ => exact (noBracket rfl).elim
  | succ count hypothesis =>
    have right : column shape < column (.block :: (List.replicate count .block ++ shape)) := by
      simp only [column, depth_block, depth_blocks]
      omega
    rw [List.replicate_succ, List.cons_append, contexts, dedent, if_pos right,
      hypothesis]
    rfl

theorem closeBracket_contexts (count : Nat) :
    closeBracket (contexts (List.replicate count .block ++ .bracket :: shape)) =
      some (List.replicate count .blockEnd, contexts shape) := by
  induction count with
  | zero => rfl
  | succ count hypothesis =>
    rw [List.replicate_succ, List.cons_append, contexts, closeBracket, hypothesis]
    rfl

theorem closeAll_contexts (count : Nat) :
    closeAll (contexts (List.replicate count .block)) = List.replicate count .blockEnd := by
  induction count with
  | zero => rfl
  | succ count hypothesis =>
    rw [List.replicate_succ, contexts, List.replicate_succ, ← hypothesis]
    rfl

end Enclosure

/-! ## The pen -/

/-- Where a pen stands: before the first token, on the first line of a block, on the line of a
further item, or behind a token. -/
inductive Pen.Place where
  | start
  | blockLine
  | itemLine
  | behind (previous : Symbol)
deriving Repr, DecidableEq

/-- The state of a pen: its place, what encloses it, and how many blocks inside of that have
ended without a token to show it. -/
structure Pen where
  place : Pen.Place
  shape : List Enclosure
  ends : Nat
deriving Repr, DecidableEq

/-- What encloses a place behind a symbol that closes no bracket. -/
def Symbol.enclose (shape : List Enclosure) : Symbol → List Enclosure
  | .mark fixed => if fixed.opensBracket then .bracket :: shape else shape
  | _ => shape

/-- Whether a symbol closes a bracket. -/
def Symbol.closesBracket : Symbol → Bool
  | .mark fixed => fixed.closesBracket
  | _ => false

theorem Symbol.writable_of_closesBracket (closes : mark.closesBracket = true) :
    (Symbol.mark mark).writable = true := by
  cases mark <;> first | rfl | exact Bool.noConfusion closes

namespace Pen

variable {word : Word} {more : Text} {reader : Reader} {state : State} {before : Option Token}
  {previous : Symbol} {ends : Nat} {pen last : Pen} {shape : List Enclosure}

/-- The marks that the layout puts before the next token. -/
def owed (pen : Pen) : List Mark :=
  match pen.place with
  | .start => []
  | .blockLine => [.blockStart]
  | .itemLine => List.replicate pen.ends .blockEnd ++ [.itemSeparator]
  | .behind _ => List.replicate pen.ends .blockEnd

/-- Where the pen puts the next terminal. -/
def page (pen : Pen) : Page :=
  ⟨Enclosure.depth pen.shape, match pen.place with | .behind _ => false | _ => true⟩

/-- A symbol that closes no bracket can be written: a comma starts no item, a sign does not
follow an operand, and only a bracket or an item follows the end of a block. -/
def Admits (pen : Pen) (symbol : Symbol) : Prop :=
  match pen.place with
  | .behind previous =>
    pen.ends = 0 ∧ (symbol.isNegative = true → previous.endsOperand = false)
  | .itemLine => symbol ≠ .mark .comma
  | .start | .blockLine => True

/-- What a pen can write next. -/
inductive Step : Pen → Terminal → Pen → Prop where
  | blockStart
      {previous : Symbol} {shape : List Enclosure} :
      opensBlock previous = true →
      Step ⟨.behind previous, shape, 0⟩ (.mark .blockStart) ⟨.blockLine, .block :: shape, 0⟩
  | blockEnd
      {previous : Symbol} {shape : List Enclosure} {ends : Nat} :
      Step ⟨.behind previous, .block :: shape, ends⟩ (.mark .blockEnd)
        ⟨.behind previous, shape, ends + 1⟩
  | item
      {previous : Symbol} {shape : List Enclosure} {ends : Nat} :
      shape.head? ≠ some .bracket →
      Step ⟨.behind previous, shape, ends⟩ (.mark .itemSeparator) ⟨.itemLine, shape, ends⟩
  | index
      {previous : Symbol} {shape : List Enclosure} :
      previous.endsOperand = true →
      Step ⟨.behind previous, shape, 0⟩ .indexBracket
        ⟨.behind (.mark .openBracket), .bracket :: shape, 0⟩
  | closing
      {previous : Symbol} {shape : List Enclosure} {ends : Nat} {mark : Mark} :
      mark.closesBracket = true →
      Step ⟨.behind previous, .bracket :: shape, ends⟩ (.mark mark)
        ⟨.behind (.mark mark), shape, 0⟩
  | symbol
      {pen : Pen} {symbol : Symbol} :
      symbol.writable = true →
      symbol.closesBracket = false →
      pen.Admits symbol →
      Step pen (.symbol symbol) ⟨.behind symbol, symbol.enclose pen.shape, 0⟩

/-- A pen writes a word. -/
inductive Writes : Pen → Word → Pen → Prop where
  | done
      {pen : Pen} :
      Writes pen [] pen
  | step
      {pen next last : Pen} {terminal : Terminal} {word : Word} :
      Step pen terminal next →
      Writes next word last →
      Writes pen (terminal :: word) last

theorem Writes.append
    {middle : Pen} {rest : Word}
    (first : Writes pen word middle)
    (second : Writes middle rest last) :
    Writes pen (word ++ rest) last := by
  induction first with
  | done => exact second
  | step step _ hypothesis => exact .step step (hypothesis second)

/-- The page of a pen follows it. -/
theorem Step.page_eq {next : Pen} {terminal : Terminal} (step : Step pen terminal next) :
    (pen.page.put terminal).2 = next.page := by
  cases step with
  | blockStart => simp [page, Page.put]
  | blockEnd => simp [page, Page.put]
  | item => rfl
  | index => simp [page, Page.put]
  | closing closes =>
    rw [Page.put_symbol (Symbol.writable_of_closesBracket closes)]
    simp [page]
  | @symbol pen symbol writable _ _ =>
    rw [Page.put_symbol writable]
    cases symbol with
    | mark mark => cases mark <;> simp [page, Symbol.enclose, Mark.opensBracket]
    | _ => rfl

/-! ## Reading back -/

/-- A reader and a layout follow a pen, behind the last token that the layout has put out. -/
inductive Follows : Pen → Reader → State → Option Token → Prop where
  | start :
      Follows ⟨.start, [], 0⟩ .initial .initial none
  | blockLine
      {shape : List Enclosure} {position : Position} {previous : Symbol}
      {before : Option Token} :
      position.column = Enclosure.column (.block :: shape) →
      opensBlock previous = true →
      Follows ⟨.blockLine, .block :: shape, 0⟩ ⟨position, 0, false, true⟩
        ⟨some ⟨1, Enclosure.contexts shape⟩, some previous, true⟩ before
  | itemLine
      {shape : List Enclosure} {ends : Nat} {position : Position} {previous : Symbol}
      {before : Option Token} :
      position.column = Enclosure.column shape →
      shape.head? ≠ some .bracket →
      Follows ⟨.itemLine, shape, ends⟩ ⟨position, 0, false, true⟩
        ⟨some ⟨1, Enclosure.contexts (List.replicate ends .block ++ shape)⟩, some previous, true⟩
        before
  | behind
      {shape : List Enclosure} {ends : Nat} {position : Position} {token : Token} :
      token.span.stop.offset = position.offset →
      Follows ⟨.behind token.symbol, shape, ends⟩
        ⟨position, 0, true, !token.symbol.endsOperand⟩
        ⟨some ⟨1, Enclosure.contexts (List.replicate ends .block ++ shape)⟩, some token.symbol,
          false⟩
        (some token)

/-- A text in front of `more` is read back as a word by whatever follows the pen. -/
def ReadsBack (file : Option Text) (text more : Text) (word : Word) (pen last : Pen) : Prop :=
  ∀ reader state before, Follows pen reader state before →
    ∃ tokens indents finish out final,
      Passage file reader (text ++ more) tokens indents finish more ∧
        Run [] state tokens out final ∧
          Follows last finish final (out.getLast?.or before) ∧
            pen.owed.map .mark ++ word = terminalsAfter before out ++ last.owed.map .mark

theorem ReadsBack.append
    {file : Option Text} {text rest : Text} {further : Word} {middle : Pen}
    (first : ReadsBack file text (rest ++ more) word pen middle)
    (second : ReadsBack file rest more further middle last) :
    ReadsBack file (text ++ rest) more (word ++ further) pen last := by
  intro reader state before follows
  obtain ⟨tokens, indents, between, out, inner, passage, run, follows, same⟩ :=
    first reader state before follows
  obtain ⟨others, records, finish, later, final, farther, runOn, follows, sameLater⟩ :=
    second between inner _ follows
  refine ⟨tokens ++ others, indents ++ records, finish, out ++ later, final, ?_,
    run.append runOn, ?_, ?_⟩
  · rw [List.append_assoc]
    exact passage.trans farther
  · rw [List.getLast?_append, Option.or_assoc]
    exact follows
  · rw [terminalsAfter_append, List.append_assoc, ← sameLater, ← List.append_assoc, same,
      List.append_assoc]

/-- The passage of a symbol. -/
theorem passage_spelling
    (writable : symbol.writable = true)
    (signs : Bool)
    (allowed : symbol.isNegative = true → signs = true)
    (parts : Parts more)
    (file : Option Text)
    (start : Position)
    (inLine : Bool) :
    Passage file ⟨start, 0, inLine, signs⟩ (symbol.spelling ++ more)
      [pieceToken file symbol symbol.spelling start] (lineRecord inLine start)
      ⟨start.advanceBy symbol.spelling, 0, true, !symbol.endsOperand⟩ more := by
  obtain ⟨first, rest, spelled, scanned⟩ := Symbol.scan_spelling writable allowed
  have passage : Passage file ⟨start, 0, inLine, signs⟩ (first :: (rest ++ more)) _ _ _ more :=
    .token (scan_append scanned parts) .done
  rw [spelled]
  simpa using passage

/-- The passage of a new line. -/
theorem passage_newLine
    (file : Option Text)
    (position : Position)
    (signs : Bool)
    (depth : Nat)
    (more : Text) :
    ∃ start, start.column = 2 * depth + 1 ∧
      Passage file ⟨position, 0, true, signs⟩ (Page.newLine depth ++ more)
        [newlineToken file position] [] ⟨start, 0, false, true⟩ more := by
  have blanks (count : Nat) (start : Position) :
      ∃ stop, stop.column = start.column + count ∧
        Passage file ⟨start, 0, false, true⟩ (List.replicate count (.scalar ' ') ++ more) [] []
          ⟨stop, 0, false, true⟩ more := by
    induction count generalizing start with
    | zero => exact ⟨start, rfl, .done⟩
    | succ count hypothesis =>
      obtain ⟨stop, isColumn, passage⟩ := hypothesis (start.advance (.scalar ' '))
      refine ⟨stop, ?_, .blank rfl passage⟩
      have moved : (start.advance (.scalar ' ')).column = start.column + 1 := rfl
      omega
  obtain ⟨start, isColumn, passage⟩ := blanks (2 * depth) (position.advance (.scalar '\n'))
  have atLineStart : (position.advance (.scalar '\n')).column = 1 := rfl
  exact ⟨start, by omega, .lineEnd passage⟩

/-- The layout puts the marks that are owed before a symbol that closes no bracket. -/
theorem Follows.arrive_eq
    (follows : Follows pen reader state before)
    (token : Token)
    (admits : pen.Admits token.symbol)
    (isColumn : pen.page.lineStart = true → token.span.start.column = reader.position.column) :
    arrive [] state token = some (pen.owed, ⟨1, Enclosure.contexts pen.shape⟩) := by
  cases follows with
  | start =>
    show some ([], Stack.mk token.span.start.column []) = _
    rw [isColumn rfl]
    rfl
  | @blockLine shape position previous _ atColumn opens =>
    have right : Enclosure.column shape < Enclosure.column (.block :: shape) := by
      simp only [Enclosure.column, Enclosure.depth_block]
      omega
    have column : indentOf [] token = Enclosure.column (.block :: shape) :=
      (isColumn rfl).trans atColumn
    simp only [arrive, if_true, startLine, column, Option.any_some, opens,
      Enclosure.innermost_contexts, right, decide_true, Bool.and_self]
    rfl
  | @itemLine shape ends position previous _ atColumn noBracket =>
    have column : indentOf [] token = Enclosure.column shape := (isColumn rfl).trans atColumn
    have left : ¬ Enclosure.column (List.replicate ends .block ++ shape) <
        Enclosure.column shape := by
      simp only [Enclosure.column, Enclosure.depth_blocks]
      omega
    have top : (List.replicate ends Enclosure.block ++ shape).head? ≠ some .bracket := by
      cases ends with
      | zero => exact noBracket
      | succ => exact fun same => Enclosure.noConfusion (Option.some.inj same)
    have noComma : token.isMark .comma = false := decide_eq_false admits
    simp only [arrive, if_true, startLine, column, Enclosure.innermost_contexts, left,
      decide_false, Bool.and_false, Bool.false_eq_true, if_false,
      Enclosure.topColumn?_contexts top, noComma, Bool.or_self,
      Enclosure.dedent_contexts noBracket]
    rfl
  | behind =>
    obtain ⟨noEnds, -⟩ := admits
    cases noEnds
    rfl

/-- Behind a token no line starts, so the contexts stay. -/
theorem Follows.arrive_behind
    (follows : Follows ⟨.behind previous, shape, ends⟩ reader state before)
    (token : Token) :
    arrive [] state token =
      some ([], ⟨1, Enclosure.contexts (List.replicate ends .block ++ shape)⟩) := by
  cases follows
  rfl

theorem passBracket_enclose
    (token : Token)
    (noClosing : token.symbol.closesBracket = false)
    (shape : List Enclosure) :
    passBracket ⟨1, Enclosure.contexts shape⟩ token =
      ([], ⟨1, Enclosure.contexts (token.symbol.enclose shape)⟩) := by
  unfold passBracket
  cases isSymbol : token.symbol with
  | mark mark =>
    rw [isSymbol] at noClosing
    have notClosing : mark.closesBracket = false := noClosing
    cases opens : mark.opensBracket with
    | true => simp [Symbol.enclose, opens, Enclosure.contexts]
    | false => simp [Symbol.enclose, opens, notClosing]
  | _ => rfl

/-- A closing bracket closes the blocks inside it. -/
theorem passBracket_closing
    {token : Token}
    (isMark : token.symbol = .mark mark)
    (closes : mark.closesBracket = true)
    (shape : List Enclosure)
    (count : Nat) :
    passBracket ⟨1, Enclosure.contexts (List.replicate count .block ++ .bracket :: shape)⟩ token =
      (List.replicate count .blockEnd, ⟨1, Enclosure.contexts shape⟩) := by
  have noOpening : mark.opensBracket = false := by
    cases mark <;> first | rfl | exact Bool.noConfusion closes
  simp only [passBracket, isMark, noOpening, closes, Enclosure.closeBracket_contexts,
    Bool.false_eq_true, if_false, if_true]

theorem marksAt_append (token : Token) (marks others : List Mark) :
    marksAt token (marks ++ others) = marksAt token marks ++ marksAt token others :=
  List.map_append

theorem ofToken_eq_symbol
    {last : Option Token} {token : Token}
    (noIndex : ∀ other ∈ last, other.symbol.endsOperand = false ∨
      other.span.stop.offset ≠ token.span.start.offset) :
    Terminal.ofToken last token = .symbol token.symbol := by
  cases last with
  | none => simp [Terminal.ofToken]
  | some other =>
    rcases noIndex other rfl with noOperand | apart
    · simp [Terminal.ofToken, noOperand]
    · simp [Terminal.ofToken, apart]

theorem isLayout_of_mem_owed (member : mark ∈ pen.owed) : mark.isLayout = true := by
  unfold owed at member
  split at member
  · cases member
  · rw [List.mem_singleton.mp member]
    rfl
  · rcases List.mem_append.mp member with isEnd | isSeparator
    · rw [(List.mem_replicate.mp isEnd).2]
      rfl
    · rw [List.mem_singleton.mp isSeparator]
      rfl
  · rw [(List.mem_replicate.mp member).2]
    rfl

/-- Between the last token and a symbol stand the marks that are owed, or a blank; so the
symbol is no index. -/
theorem Follows.terminals_eq
    (follows : Follows pen reader state before)
    (token : Token)
    (apart : pen.page.lineStart = false → reader.position.offset ≠ token.span.start.offset) :
    terminalsAfter before (marksAt token pen.owed ++ [token]) =
      pen.owed.map .mark ++ [Terminal.symbol token.symbol] := by
  have noIndex : ∀ other ∈ (marksAt token pen.owed).getLast?.or before,
      other.symbol.endsOperand = false ∨ other.span.stop.offset ≠ token.span.start.offset := by
    cases follows with
    | start => exact nofun
    | blockLine =>
      rintro other ⟨⟩
      exact .inl rfl
    | itemLine =>
      simp only [owed, marksAt, List.map_append, List.getLast?_append]
      rintro other ⟨⟩
      exact .inl rfl
    | @behind shape ends position last sameOffset =>
      intro other member
      rcases Option.or_eq_some_iff.mp member with isMark | ⟨-, isLast⟩
      · obtain ⟨mark, owing, rfl⟩ := List.mem_map.mp (List.mem_of_getLast? isMark)
        have isLayout := isLayout_of_mem_owed owing
        refine .inl ?_
        cases mark <;> first | rfl | exact Bool.noConfusion isLayout
      · cases isLast
        exact .inr (sameOffset ▸ apart rfl)
  rw [terminalsAfter_append, terminalsAfter_marksAt (fun _ => isLayout_of_mem_owed), terminalsAfter,
    ofToken_eq_symbol noIndex]
  rfl

/-- A token is read back when the layout puts the marks before it that are owed. -/
theorem readsBack_piece
    {file : Option Text} {text lexeme : Text}
    {start : Position} {indents : List (Nat × Nat)}
    {marks closed : List Mark} {stack : Stack}
    (writable : symbol.writable = true)
    (passage : Passage file reader text [pieceToken file symbol lexeme start] indents
      ⟨start.advanceBy lexeme, 0, true, !symbol.endsOperand⟩ more)
    (arrives : arrive [] state (pieceToken file symbol lexeme start) = some (marks, stack))
    (passes : passBracket stack (pieceToken file symbol lexeme start) =
      (closed, ⟨1, Enclosure.contexts shape⟩))
    (same : terminalsAfter before
      (marksAt (pieceToken file symbol lexeme start) (marks ++ closed) ++
        [pieceToken file symbol lexeme start]) = word) :
    ∃ tokens indents finish out final,
      Passage file reader text tokens indents finish more ∧
        Run [] state tokens out final ∧
          Follows ⟨.behind symbol, shape, 0⟩ finish final (out.getLast?.or before) ∧
            word = terminalsAfter before out := by
  have noNewline : symbol ≠ .mark .newline := by
    rintro rfl
    cases writable
  have noEnd : symbol ≠ .mark .endOfInput := by
    rintro rfl
    cases writable
  have run : Run [] state [pieceToken file symbol lexeme start] _ _ :=
    .token noNewline noEnd arrives .done
  rw [passes, ← marksAt_append] at run
  refine ⟨_, _, _, _, _, passage, run, ?_, same.symm⟩
  rw [List.getLast?_concat]
  exact @Follows.behind shape 0 _ (pieceToken file symbol lexeme start) rfl

/-- The passage of a symbol, behind a blank unless a line starts. -/
theorem Follows.exists_passage
    (follows : Follows pen reader state before)
    (writable : symbol.writable = true)
    (admits : pen.Admits symbol)
    (parts : Parts more)
    (file : Option Text) :
    ∃ start indents,
      Passage file reader
        ((if pen.page.lineStart then [] else [.scalar ' ']) ++ symbol.spelling ++ more)
        [pieceToken file symbol symbol.spelling start] indents
        ⟨start.advanceBy symbol.spelling, 0, true, !symbol.endsOperand⟩ more ∧
      (pen.page.lineStart = true → start.column = reader.position.column) ∧
      (pen.page.lineStart = false → reader.position.offset ≠ start.offset) := by
  cases follows with
  | start
  | blockLine
  | itemLine =>
    exact ⟨_, _, passage_spelling writable true (fun _ => rfl) parts file _ false, fun _ => rfl,
      Bool.noConfusion⟩
  | @behind shape ends position token sameOffset =>
    have allowed (isNegative : symbol.isNegative = true) :
        (!token.symbol.endsOperand) = true := by
      rw [admits.2 isNegative]
      rfl
    refine ⟨position.advance (.scalar ' '), _,
      .blank rfl (passage_spelling writable _ allowed parts file _ true), Bool.noConfusion,
      fun _ => ?_⟩
    exact Nat.ne_of_lt (Nat.lt_succ_self _)

/-- A new line behind a token is read as a newline. -/
theorem Follows.exists_newLine
    (follows : Follows ⟨.behind previous, shape, ends⟩ reader state before)
    (file : Option Text)
    (depth : Nat)
    (more : Text) :
    ∃ start tokens, start.column = 2 * depth + 1 ∧
      Passage file reader (Page.newLine depth ++ more) tokens [] ⟨start, 0, false, true⟩ more ∧
      Run [] state tokens []
        ⟨some ⟨1, Enclosure.contexts (List.replicate ends .block ++ shape)⟩, some previous,
          true⟩ := by
  cases follows with
  | @behind _ _ position token sameOffset =>
    obtain ⟨start, isColumn, passage⟩ :=
      passage_newLine file position (!token.symbol.endsOperand) depth more
    exact ⟨start, _, isColumn, passage, .newline rfl .done⟩

theorem readsBack_blockStart
    (opens : opensBlock previous = true)
    (file : Option Text)
    (more : Text) :
    ReadsBack file (Page.newLine (Enclosure.depth shape + 1)) more [.mark .blockStart]
      ⟨.behind previous, shape, 0⟩ ⟨.blockLine, .block :: shape, 0⟩ := by
  intro reader state before follows
  obtain ⟨start, tokens, isColumn, passage, run⟩ :=
    follows.exists_newLine file (Enclosure.depth shape + 1) more
  have atColumn : start.column = Enclosure.column (.block :: shape) := by
    rw [isColumn, Enclosure.column, Enclosure.depth_block]
  exact ⟨tokens, _, _, _, _, passage, run, .blockLine atColumn opens, rfl⟩

/-- The end of a block is not written; it shows at the next token. -/
theorem readsBack_blockEnd
    (previous : Symbol)
    (shape : List Enclosure)
    (ends : Nat)
    (file : Option Text)
    (more : Text) :
    ReadsBack file [] more [.mark .blockEnd] ⟨.behind previous, .block :: shape, ends⟩
      ⟨.behind previous, shape, ends + 1⟩ := by
  intro reader state before follows
  have sameShape : List.replicate ends Enclosure.block ++ .block :: shape =
      List.replicate (ends + 1) .block ++ shape := by
    rw [List.replicate_succ', List.append_assoc]
    rfl
  cases follows with
  | @behind _ _ position token sameOffset =>
    refine ⟨_, _, _, _, _, .done, .done, ?_, ?_⟩
    · rw [sameShape]
      exact .behind sameOffset
    · simp [owed, List.replicate_succ', terminalsAfter]

theorem readsBack_item
    (previous : Symbol)
    (noBracket : shape.head? ≠ some .bracket)
    (ends : Nat)
    (file : Option Text)
    (more : Text) :
    ReadsBack file (Page.newLine (Enclosure.depth shape)) more [.mark .itemSeparator]
      ⟨.behind previous, shape, ends⟩ ⟨.itemLine, shape, ends⟩ := by
  intro reader state before follows
  obtain ⟨start, tokens, isColumn, passage, run⟩ :=
    follows.exists_newLine file (Enclosure.depth shape) more
  refine ⟨tokens, _, _, _, _, passage, run, .itemLine isColumn noBracket, ?_⟩
  simp [owed, terminalsAfter]

theorem readsBack_index
    (isOperand : previous.endsOperand = true)
    (shape : List Enclosure)
    (file : Option Text)
    (parts : Parts more) :
    ReadsBack file [.scalar '['] more [.indexBracket] ⟨.behind previous, shape, 0⟩
      ⟨.behind (.mark .openBracket), .bracket :: shape, 0⟩ := by
  intro reader state before follows
  have writable : (Symbol.mark .openBracket).writable = true := rfl
  have arrives := follows.arrive_behind
  cases follows with
  | @behind _ _ position token sameOffset =>
    have passage := passage_spelling writable (!token.symbol.endsOperand) Bool.noConfusion parts
      file position true
    have isIndex : Terminal.ofToken (some token)
        (pieceToken file (.mark .openBracket) [.scalar '['] position) = .indexBracket := by
      simp [Terminal.ofToken, Token.isMark, pieceToken, isOperand, sameOffset]
    obtain ⟨tokens, indents, finish, out, final, passage, run, follows, same⟩ :=
      readsBack_piece writable passage (arrives _) (passBracket_enclose _ rfl shape)
        (congrArg (fun terminal => [terminal]) isIndex)
    exact ⟨tokens, indents, finish, out, final, passage, run, follows,
      same.trans (List.append_nil _).symm⟩

theorem readsBack_closing
    (previous : Symbol)
    (shape : List Enclosure)
    (ends : Nat)
    (closes : mark.closesBracket = true)
    (file : Option Text)
    (parts : Parts more) :
    ReadsBack file (.scalar ' ' :: (Symbol.mark mark).spelling) more [.mark mark]
      ⟨.behind previous, .bracket :: shape, ends⟩ ⟨.behind (.mark mark), shape, 0⟩ := by
  intro reader state before follows
  have writable := Symbol.writable_of_closesBracket closes
  have arrives := follows.arrive_behind
  have same (start : Position) := follows.terminals_eq
    (pieceToken file (.mark mark) (Symbol.mark mark).spelling start)
  cases follows with
  | @behind _ _ position token sameOffset =>
    have passage := passage_spelling writable (!token.symbol.endsOperand) Bool.noConfusion parts
      file (position.advance (.scalar ' ')) true
    obtain ⟨tokens, indents, finish, out, final, passage, run, follows, same⟩ :=
      readsBack_piece writable (.blank rfl passage) (arrives _)
        (passBracket_closing rfl closes shape ends)
        (same (position.advance (.scalar ' ')) fun _ => Nat.ne_of_lt (Nat.lt_succ_self _))
    exact ⟨tokens, indents, finish, out, final, passage, run, follows,
      same.trans (List.append_nil _).symm⟩

theorem readsBack_symbol
    (writable : symbol.writable = true)
    (noClosing : symbol.closesBracket = false)
    (admits : pen.Admits symbol)
    (file : Option Text)
    (parts : Parts more) :
    ReadsBack file ((if pen.page.lineStart then [] else [.scalar ' ']) ++ symbol.spelling) more
      [.symbol symbol] pen ⟨.behind symbol, symbol.enclose pen.shape, 0⟩ := by
  intro reader state before follows
  obtain ⟨start, indents, passage, isColumn, apart⟩ :=
    follows.exists_passage writable admits parts file
  have arrives := follows.arrive_eq (pieceToken file symbol symbol.spelling start) admits isColumn
  have passes := passBracket_enclose (pieceToken file symbol symbol.spelling start) noClosing
    pen.shape
  have same := follows.terminals_eq (pieceToken file symbol symbol.spelling start) apart
  rw [← List.append_nil pen.owed] at same
  obtain ⟨tokens, indents, finish, out, final, passage, run, follows, same⟩ :=
    readsBack_piece writable passage arrives passes same
  refine ⟨tokens, indents, finish, out, final, passage, run, follows, ?_⟩
  rw [← same]
  simp [owed, pieceToken]

/-- Each step of a pen is read back. -/
theorem Step.readsBack
    {terminal : Terminal}
    (step : Step pen terminal last)
    (file : Option Text)
    (parts : last.page.lineStart = false → Parts more) :
    ReadsBack file (pen.page.put terminal).1 more [terminal] pen last := by
  cases step with
  | blockStart opens => exact readsBack_blockStart opens file more
  | blockEnd => exact readsBack_blockEnd _ _ _ file more
  | item noBracket => exact readsBack_item _ noBracket _ file more
  | index isOperand => exact readsBack_index isOperand _ file (parts rfl)
  | closing closes =>
    rw [Page.put_symbol (Symbol.writable_of_closesBracket closes)]
    exact readsBack_closing _ _ _ closes file (parts rfl)
  | symbol writable noClosing admits =>
    rw [Page.put_symbol writable]
    exact readsBack_symbol writable noClosing admits file (parts rfl)

/-- What a pen writes is read back. -/
theorem Writes.readsBack (writes : Writes pen word last) (file : Option Text) :
    ReadsBack file (pen.page.render word) [] word pen last := by
  induction writes with
  | @done pen =>
    intro reader state before follows
    exact ⟨[], [], reader, [], state, .done, .done, follows, List.append_nil _⟩
  | @step pen next last terminal word step _ hypothesis =>
    have parts (noLine : next.page.lineStart = false) : Parts (next.page.render word ++ []) := by
      rw [List.append_nil]
      exact Page.parts_render noLine word
    rw [Page.render, step.page_eq]
    exact (step.readsBack file parts).append hypothesis

/-- A page is read as its word, with the ends of the blocks that are open at its end. -/
theorem Writes.exists_run
    (writes : Writes ⟨.start, [], 0⟩ word ⟨.behind previous, [], ends⟩)
    (file : Option Text) :
    ∃ tokens indents last out state stack,
      Passage file .initial (Page.render ⟨0, true⟩ word) tokens indents last [] ∧
        Run [] .initial tokens out state ∧
          state.stack = some stack ∧
            terminals out ++ (closeAll stack.inner).map .mark = word := by
  obtain ⟨tokens, indents, last, out, state, passage, run, follows, same⟩ :=
    writes.readsBack file _ _ _ .start
  rw [List.append_nil] at passage
  generalize out.getLast?.or none = before at follows
  cases follows with
  | behind =>
    refine ⟨tokens, indents, _, out, _, _, passage, run, rfl, ?_⟩
    rw [List.append_nil, Enclosure.closeAll_contexts]
    exact same.symm

end Pen

end Offside
