import Offside.Proofs.Printing.Derivation
import Offside.Proofs.Printing.Page

namespace Offside

/-!
# Words are written on pages

A pen can write the word of every tree that can be written.  An expression leaves the pen in the
enclosure where it found it, behind an operand; only an expression that ends in a block leaves
blocks that the next line or the next closing bracket has to close.
-/

variable {pen : Pen} {loose : Bool} {previous : Symbol} {mark : Mark} {word : Word}

namespace Pen

/-- An expression may start here; a loose one not behind an operand. -/
def Accepts (pen : Pen) (loose : Bool) : Prop :=
  match pen.place with
  | .behind previous => pen.ends = 0 ∧ (loose = true → previous.endsOperand = false)
  | .start | .blockLine | .itemLine => True

/-- A line starts here. -/
def AtLine (pen : Pen) : Prop :=
  pen.page.lineStart = true

/-- The pen writes a word and stands behind an operand; blocks end there only if `unclosed`. -/
def WritesOperand (pen : Pen) (word : Word) (unclosed : Bool) : Prop :=
  ∃ last ends, Writes pen word ⟨.behind last, pen.shape, ends⟩ ∧ last.endsOperand = true ∧
    (unclosed = false → ends = 0)

theorem AtLine.accepts (atLine : pen.AtLine) (loose : Bool) : pen.Accepts loose := by
  obtain ⟨place, shape, ends⟩ := pen
  cases place with
  | behind => cases atLine
  | _ => trivial

theorem Accepts.mono
    {looser : Bool}
    (accepts : pen.Accepts looser)
    (implied : loose = true → looser = true) :
    pen.Accepts loose := by
  obtain ⟨place, shape, ends⟩ := pen
  cases place with
  | behind => exact ⟨accepts.1, fun isLoose => accepts.2 (implied isLoose)⟩
  | _ => trivial

/-- Behind a symbol that ends no operand any expression may start. -/
theorem accepts_behind
    (noOperand : previous.endsOperand = false)
    (shape : List Enclosure)
    (loose : Bool) :
    Accepts ⟨.behind previous, shape, 0⟩ loose :=
  ⟨rfl, fun _ => noOperand⟩

/-- The pen writes a symbol that may start an expression. -/
theorem Accepts.step
    {pen : Pen} {loose : Bool}
    (accepts : pen.Accepts loose)
    {symbol : Symbol}
    (writable : symbol.writable = true)
    (noClosing : symbol.closesBracket = false)
    (noComma : symbol ≠ .mark .comma)
    (signed : symbol.isNegative = true → loose = true) :
    Step pen (.symbol symbol) ⟨.behind symbol, symbol.enclose pen.shape, 0⟩ := by
  refine .symbol writable noClosing ?_
  obtain ⟨place, shape, ends⟩ := pen
  cases place with
  | behind => exact ⟨accepts.1, fun isNegative => accepts.2 (signed isNegative)⟩
  | itemLine => exact noComma
  | _ => trivial

/-- The pen writes an opening bracket where an expression may start. -/
theorem Accepts.open_bracket (accepts : pen.Accepts loose) (opens : mark.opensBracket = true) :
    Step pen (.mark mark) ⟨.behind (.mark mark), .bracket :: pen.shape, 0⟩ ∧
      (Symbol.mark mark).endsOperand = false := by
  have step (writable : (Symbol.mark mark).writable = true)
      (noClosing : mark.closesBracket = false)
      (noComma : Symbol.mark mark ≠ .mark .comma) :
      Step pen (.mark mark) ⟨.behind (.mark mark), .bracket :: pen.shape, 0⟩ := by
    have step := accepts.step writable noClosing noComma nofun
    rwa [Symbol.enclose, opens] at step
  cases mark <;>
    first
    | exact Bool.noConfusion opens
    | exact ⟨step rfl rfl (by decide), rfl⟩

/-- Behind a token and outside of ended blocks the pen writes any symbol without a sign. -/
theorem step_behind
    (symbol : Symbol)
    (writable : symbol.writable = true)
    (noClosing : symbol.closesBracket = false)
    (noSign : symbol.isNegative = false)
    (shape : List Enclosure) :
    Step ⟨.behind previous, shape, 0⟩ (.symbol symbol)
      ⟨.behind symbol, symbol.enclose shape, 0⟩ :=
  .symbol writable noClosing
    ⟨rfl, fun isNegative => Bool.noConfusion (noSign.symm.trans isNegative)⟩

/-- Behind a token and outside of ended blocks the pen writes any mark that is no bracket. -/
theorem step_mark
    (isSpelled : mark.spelling?.isSome = true)
    (noOpening : mark.opensBracket = false)
    (noClosing : mark.closesBracket = false)
    (previous : Symbol)
    (shape : List Enclosure) :
    Step ⟨.behind previous, shape, 0⟩ (.mark mark) ⟨.behind (.mark mark), shape, 0⟩ := by
  have step : Step ⟨.behind previous, shape, 0⟩ (.mark mark) _ :=
    step_behind (.mark mark) isSpelled noClosing rfl shape
  rwa [Symbol.enclose, noOpening] at step

theorem Writes.single {next : Pen} {terminal : Terminal} (step : Step pen terminal next) :
    Writes pen [terminal] next :=
  .step step .done

/-- A word between brackets is written where the opening bracket is. -/
theorem WritesOperand.bracketed
    {opening : Terminal} {opened : Symbol} {closing : Mark}
    {unclosed : Bool}
    (step : Step pen opening ⟨.behind opened, .bracket :: pen.shape, 0⟩)
    (closes : closing.closesBracket = true)
    (inside : WritesOperand ⟨.behind opened, .bracket :: pen.shape, 0⟩ word unclosed) :
    pen.WritesOperand (opening :: (word ++ [Terminal.mark closing])) false := by
  obtain ⟨last, ends, writes, -, -⟩ := inside
  exact ⟨.mark closing, 0, .step step (writes.append (.single (.closing closes))), closes,
    fun _ => rfl⟩

theorem WritesOperand.grouped
    {unclosed : Bool}
    (writes : ∀ pen : Pen, pen.Accepts loose → pen.WritesOperand word unclosed)
    (needed : Bool)
    (accepts : pen.Accepts (!needed && loose)) :
    pen.WritesOperand (grouped needed word) (!needed && unclosed) := by
  cases needed with
  | false => exact writes pen accepts
  | true =>
    have opens : Mark.openParen.opensBracket = true := rfl
    obtain ⟨step, noOperand⟩ := accepts.open_bracket opens
    exact .bracketed step rfl (writes _ (accepts_behind noOperand ..))

theorem WritesOperand.unclosed {unclosed : Bool} (writes : pen.WritesOperand word unclosed) :
    pen.WritesOperand word true := by
  obtain ⟨last, ends, writes, isOperand, -⟩ := writes
  exact ⟨last, ends, writes, isOperand, nofun⟩

/-- A mark between two words, the first without ended blocks behind it. -/
theorem WritesOperand.between
    {rest : Word} {unclosed : Bool}
    (first : pen.WritesOperand word false)
    (isSpelled : mark.spelling?.isSome = true)
    (noOpening : mark.opensBracket = false)
    (noClosing : mark.closesBracket = false)
    (second : WritesOperand ⟨.behind (.mark mark), pen.shape, 0⟩ rest unclosed) :
    pen.WritesOperand (word ++ .mark mark :: rest) unclosed := by
  obtain ⟨last, ends, writesFirst, -, noEnds⟩ := first
  obtain ⟨final, finalEnds, writesRest, isOperand, finalNoEnds⟩ := second
  cases noEnds rfl
  have step := step_mark isSpelled noOpening noClosing last pen.shape
  exact ⟨final, finalEnds, writesFirst.append (.step step writesRest), isOperand, finalNoEnds⟩

/-- Words on lines of their own. -/
theorem WritesOperand.joined_item
    {words : List Word}
    (nonempty : words ≠ [])
    (writes : ∀ word ∈ words, ∀ pen : Pen, pen.AtLine → pen.WritesOperand word true)
    (atLine : pen.AtLine)
    (noBracket : pen.shape.head? ≠ some .bracket) :
    pen.WritesOperand (joined .itemSeparator words) true := by
  induction words generalizing pen with
  | nil => exact (nonempty rfl).elim
  | cons word words hypothesis =>
    obtain ⟨first, rest⟩ := List.forall_mem_cons.mp writes
    cases words with
    | nil => exact first pen atLine
    | cons other others =>
      obtain ⟨last, ends, writesFirst, -, -⟩ := first pen atLine
      have atNext : AtLine ⟨.itemLine, pen.shape, ends⟩ := rfl
      obtain ⟨final, ends, writesRest, isOperand, -⟩ :=
        hypothesis nofun rest atNext noBracket
      exact ⟨final, ends, writesFirst.append (.step (.item noBracket) writesRest), isOperand,
        nofun⟩

/-- Names one after another, up to a mark that opens no bracket. -/
theorem writes_names
    {names : List Text}
    (areNames : names.all (·.isName) = true)
    (isSpelled : mark.spelling?.isSome = true)
    (noOpening : mark.opensBracket = false)
    (noClosing : mark.closesBracket = false)
    (previous : Symbol)
    (shape : List Enclosure) :
    Writes ⟨.behind previous, shape, 0⟩ (names.map .name ++ [Terminal.mark mark])
      ⟨.behind (.mark mark), shape, 0⟩ := by
  induction names generalizing previous with
  | nil => exact .single (step_mark isSpelled noOpening noClosing previous shape)
  | cons name names hypothesis =>
    obtain ⟨isName, areNames⟩ := Bool.and_eq_true_iff.mp areNames
    have step : Step ⟨.behind previous, shape, 0⟩ (.name name)
        ⟨.behind (.identifier name), shape, 0⟩ :=
      step_behind (.identifier name) isName rfl rfl shape
    exact .step step (hypothesis areNames _)

end Pen

open Pen

/-! ## Parts of a tree -/

/-- A pen can write an expression wherever it may start, and a body behind what opens a block. -/
def Expr.Written (expr : Expr) : Prop :=
  (expr.writable false = true → ∀ pen : Pen, pen.Accepts expr.isLoose →
    pen.WritesOperand expr.word expr.endsInBlock) ∧
  (expr.writable true = true → ∀ previous shape, Layout.opensBlock previous = true →
    WritesOperand ⟨.behind previous, shape, 0⟩ expr.word expr.endsInBlock)

/-- A pen can write a statement at the start of a line. -/
def Stmt.Written (stmt : Stmt) : Prop :=
  stmt.writable = true → ∀ pen : Pen, pen.AtLine → pen.WritesOperand stmt.word true

theorem endsOperand_of_opensBlock {symbol : Symbol} (opens : Layout.opensBlock symbol = true) :
    symbol.endsOperand = false := by
  cases symbol with
  | mark mark => cases mark <;> first | rfl | exact Bool.noConfusion opens
  | _ => cases opens

namespace Expr

variable {expr : Expr}

/-- An expression that is no block is a body as well. -/
theorem Written.of_operand
    (sameWritable : expr.writable true = expr.writable false)
    (writes : expr.writable false = true → ∀ pen : Pen, pen.Accepts expr.isLoose →
      pen.WritesOperand expr.word expr.endsInBlock) :
    expr.Written :=
  ⟨writes, fun writable _ _ opens => writes (sameWritable ▸ writable) _
    (accepts_behind (endsOperand_of_opensBlock opens) ..)⟩

/-- Only a function or a block ends in a block. -/
theorem endsInBlock_of_strength (strong : 0 < expr.strength) : expr.endsInBlock = false := by
  cases expr <;> first | rfl | cases strong

/-- An expression leaves no block open if it has parentheses where it would. -/
theorem Written.closed
    (written : expr.Written)
    (writable : expr.writable false = true)
    {needed : Bool}
    (closes : expr.endsInBlock = true → needed = true)
    (accepts : pen.Accepts (!needed && expr.isLoose)) :
    pen.WritesOperand (Offside.grouped needed expr.word) false := by
  have writes := WritesOperand.grouped (written.1 writable) needed accepts
  have closed : (!needed && expr.endsInBlock) = false := by
    cases endsInBlock : expr.endsInBlock with
    | false => exact Bool.and_false _
    | true =>
      rw [closes endsInBlock]
      rfl
  rwa [closed] at writes

/-- An expression in parentheses where it is too weak leaves no block open. -/
theorem Written.operand
    (written : expr.Written)
    (writable : expr.writable false = true)
    {least : Nat}
    (positive : 0 < least)
    (accepts : pen.Accepts (decide (least ≤ expr.strength) && expr.isLoose)) :
    pen.WritesOperand (Offside.grouped (expr.strength < least) expr.word) false := by
  refine written.closed writable (fun endsInBlock => decide_eq_true ?_) ?_
  · refine Nat.lt_of_not_le fun strong => ?_
    rw [endsInBlock_of_strength (Nat.lt_of_lt_of_le positive strong)] at endsInBlock
    cases endsInBlock
  · rwa [← decide_not, decide_eq_decide.mpr Nat.not_lt]

/-- An element that a comma follows leaves no block open. -/
theorem Written.element
    (written : expr.Written)
    (writable : expr.writable false = true)
    (followed : Bool)
    (noOperand : previous.endsOperand = false)
    (shape : List Enclosure) :
    WritesOperand ⟨.behind previous, shape, 0⟩
      (Offside.grouped (expr.isLooseElement followed) expr.word) !followed := by
  cases followed with
  | false =>
    exact (WritesOperand.grouped (written.1 writable) _
      (accepts_behind noOperand shape _)).unclosed
  | true => exact written.closed writable id (accepts_behind noOperand shape _)

theorem Written.key
    (written : expr.Written)
    (writable : expr.writable false = true)
    (noOperand : previous.endsOperand = false)
    (shape : List Enclosure) :
    WritesOperand ⟨.behind previous, shape, 0⟩ (Offside.grouped expr.isLooseKey expr.word)
      false := by
  refine written.closed writable (fun endsInBlock => ?_) (accepts_behind noOperand shape _)
  cases expr <;> first | rfl | exact endsInBlock

theorem Written.argument
    (written : expr.Written)
    (writable : expr.writable false = true)
    (previous : Symbol)
    (shape : List Enclosure) :
    WritesOperand ⟨.behind previous, shape, 0⟩ (Offside.grouped expr.isLoose expr.word) false := by
  refine written.closed writable (fun endsInBlock => ?_) ⟨rfl, fun loose => ?_⟩
  · cases expr <;> first | rfl | cases endsInBlock
  · rw [Bool.not_and_self] at loose
    cases loose

/-- Elements with commas between them are written inside brackets. -/
theorem elements_written
    {elements : List Expr}
    (nonempty : elements ≠ [])
    (written : ∀ element ∈ elements, element.Written)
    (writable : Expr.writableAll elements = true)
    (noOperand : previous.endsOperand = false)
    (shape : List Enclosure) :
    WritesOperand ⟨.behind previous, shape, 0⟩ (joined .comma (Expr.elementWords elements))
      true := by
  induction elements generalizing previous with
  | nil => exact (nonempty rfl).elim
  | cons element elements hypothesis =>
    obtain ⟨firstWritable, restWritable⟩ := Bool.and_eq_true_iff.mp writable
    obtain ⟨firstWritten, restWritten⟩ := List.forall_mem_cons.mp written
    have first := firstWritten.element firstWritable (!elements.isEmpty) noOperand shape
    cases elements with
    | nil => exact first
    | cons other others =>
      have behindComma : (Symbol.mark .comma).endsOperand = false := rfl
      exact first.between rfl rfl rfl
        (hypothesis (List.cons_ne_nil _ _) restWritten restWritable behindComma)

/-- Map entries with commas between them are written inside brackets. -/
theorem entries_written
    {entries : List Entry}
    (nonempty : entries ≠ [])
    (written : ∀ place key value, Entry.pair place key value ∈ entries →
      key.Written ∧ value.Written)
    (writable : Entry.writableAll entries = true)
    (noOperand : previous.endsOperand = false)
    (shape : List Enclosure) :
    WritesOperand ⟨.behind previous, shape, 0⟩ (joined .comma (Entry.words entries)) true := by
  induction entries generalizing previous with
  | nil => exact (nonempty rfl).elim
  | cons entry entries hypothesis =>
    obtain ⟨place, key, value⟩ := entry
    obtain ⟨firstWritable, restWritable⟩ := Bool.and_eq_true_iff.mp writable
    obtain ⟨keyWritable, valueWritable⟩ := Bool.and_eq_true_iff.mp firstWritable
    obtain ⟨keyWritten, valueWritten⟩ := written place key value List.mem_cons_self
    have behindColon : (Symbol.mark .colon).endsOperand = false := rfl
    have first := (keyWritten.key keyWritable noOperand shape).between rfl rfl rfl
      (valueWritten.element valueWritable (!entries.isEmpty) behindColon shape)
    cases entries with
    | nil => exact first
    | cons other others =>
      have restWritten (place : Span) (key value : Expr)
          (member : Entry.pair place key value ∈ other :: others) :=
        written place key value (List.mem_cons_of_mem _ member)
      have behindComma : (Symbol.mark .comma).endsOperand = false := rfl
      have whole := first.between rfl rfl rfl
        (hypothesis (List.cons_ne_nil _ _) restWritten restWritable behindComma)
      cases other
      exact whole

/-- Arguments are written behind an operand. -/
theorem argumentsWord_written
    {arguments : List Expr}
    (written : ∀ argument ∈ arguments, argument.Written)
    (writable : Expr.writableAll arguments = true)
    (isOperand : previous.endsOperand = true)
    (shape : List Enclosure) :
    WritesOperand ⟨.behind previous, shape, 0⟩ (Expr.argumentsWord arguments) false := by
  induction arguments generalizing previous with
  | nil => exact ⟨previous, 0, .done, isOperand, fun _ => rfl⟩
  | cons argument arguments hypothesis =>
    obtain ⟨firstWritable, restWritable⟩ := Bool.and_eq_true_iff.mp writable
    obtain ⟨firstWritten, restWritten⟩ := List.forall_mem_cons.mp written
    obtain ⟨last, ends, writesFirst, isOperand, noEnds⟩ :=
      firstWritten.argument firstWritable previous shape
    cases noEnds rfl
    obtain ⟨final, ends, writesRest, isOperand, noEnds⟩ :=
      hypothesis restWritten restWritable isOperand
    exact ⟨final, ends, writesFirst.append writesRest, isOperand, noEnds⟩

end Expr

/-- The words of statements are written on lines of their own. -/
theorem Stmt.words_written
    {stmts : List Stmt}
    (written : ∀ stmt ∈ stmts, stmt.Written)
    (writable : Stmt.writableAll stmts = true) :
    ∀ word ∈ Stmt.words stmts, ∀ pen : Pen, pen.AtLine → pen.WritesOperand word true := by
  induction stmts with
  | nil => exact nofun
  | cons stmt stmts hypothesis =>
    obtain ⟨firstWritable, restWritable⟩ := Bool.and_eq_true_iff.mp writable
    obtain ⟨firstWritten, restWritten⟩ := List.forall_mem_cons.mp written
    exact List.forall_mem_cons.mpr
      ⟨firstWritten firstWritable, hypothesis restWritten restWritable⟩

theorem Stmt.words_ne_nil {stmts : List Stmt} (nonempty : stmts ≠ []) : Stmt.words stmts ≠ [] := by
  cases stmts with
  | nil => exact (nonempty rfl).elim
  | cons => exact nofun

/-! ## Whole trees -/

namespace Expr

/-- A symbol that is an atom of its own. -/
theorem writes_leaf
    (symbol : Symbol)
    (isLeaf : symbol.leaf?.isSome = true)
    (writable : symbol.writable = true)
    (signed : symbol.isNegative = true → loose = true)
    (accepts : pen.Accepts loose) :
    pen.WritesOperand [.symbol symbol] false := by
  cases symbol with
  | mark => cases isLeaf
  | _ =>
    exact ⟨_, 0, .single (accepts.step writable rfl Symbol.noConfusion signed), rfl, fun _ => rfl⟩

theorem written_leaf (expr : Expr) (isLeaf : expr.isLeaf = true) : expr.Written := by
  cases expr with
  | int _ value => exact .of_operand rfl fun writable _ => writes_leaf (.int value) rfl writable id
  | string _ value => exact .of_operand rfl fun _ _ => writes_leaf (.string value) rfl rfl nofun
  | char _ value => exact .of_operand rfl fun _ _ => writes_leaf (.char value) rfl rfl nofun
  | bool _ truth => exact .of_operand rfl fun _ _ => writes_leaf (.bool truth) rfl rfl nofun
  | identifier _ name =>
    exact .of_operand rfl fun writable _ => writes_leaf (.identifier name) rfl writable nofun
  | float => exact .of_operand rfl (nomatch ·)
  | _ => cases isLeaf

/-- A word that can be written behind any symbol that ends no operand, between brackets. -/
theorem writes_collection
    {opening closing : Mark}
    (opens : opening.opensBracket = true)
    (closes : closing.closesBracket = true)
    (written : ∀ {previous : Symbol}, previous.endsOperand = false → ∀ shape,
      WritesOperand ⟨.behind previous, shape, 0⟩ word true)
    (accepts : pen.Accepts loose) :
    pen.WritesOperand (.mark opening :: (word ++ [Terminal.mark closing])) false := by
  obtain ⟨step, noOperand⟩ := accepts.open_bracket opens
  exact .bracketed step closes (written noOperand _)

theorem written_array
    (span : Span)
    (elements : List Expr)
    (written : ∀ element ∈ elements, element.Written) :
    (Expr.array span elements).Written := by
  refine .of_operand rfl fun writable pen accepts => ?_
  cases elements with
  | nil =>
    have opens : Mark.openBracket.opensBracket = true := rfl
    exact ⟨.mark .closeBracket, 0,
      .step (accepts.open_bracket opens).1 (.single (.closing rfl)), rfl, fun _ => rfl⟩
  | cons element elements =>
    exact writes_collection rfl rfl
      (elements_written (List.cons_ne_nil _ _) written writable) accepts

theorem written_set
    (span : Span)
    (elements : List Expr)
    (written : ∀ element ∈ elements, element.Written) :
    (Expr.set span elements).Written := by
  refine .of_operand rfl fun writable pen accepts => ?_
  obtain ⟨nonempty, writable⟩ := Bool.and_eq_true_iff.mp writable
  exact writes_collection rfl rfl
    (elements_written (by simpa using nonempty) written writable) accepts

theorem written_map
    (span : Span)
    (entries : List Entry)
    (written : ∀ place key value, Entry.pair place key value ∈ entries →
      key.Written ∧ value.Written) :
    (Expr.map span entries).Written := by
  refine .of_operand rfl fun writable pen accepts => ?_
  obtain ⟨nonempty, writable⟩ := Bool.and_eq_true_iff.mp writable
  exact writes_collection rfl rfl
    (entries_written (by simpa using nonempty) written writable) accepts

/-- An operator is a sign that is no bracket, and its operands are no functions. -/
theorem operator_spec
    {operator : Mark}
    (isOperator : (TokenKind.mark operator).precedence?.isSome = true) :
    0 < (TokenKind.mark operator).leftStrength ∧ 0 < (TokenKind.mark operator).rightStrength ∧
      operator.spelling?.isSome = true ∧ operator.opensBracket = false ∧
        operator.closesBracket = false := by
  cases operator <;> first | decide | exact Bool.noConfusion isOperator

theorem written_binary
    (span : Span)
    (left : Expr)
    (operator : TokenKind)
    (right : Expr)
    (leftWritten : left.Written)
    (rightWritten : right.Written) :
    (Expr.binary span left operator right).Written := by
  refine .of_operand rfl fun writable pen accepts => ?_
  obtain ⟨writable, rightWritable⟩ := Bool.and_eq_true_iff.mp writable
  obtain ⟨isOperator, leftWritable⟩ := Bool.and_eq_true_iff.mp writable
  obtain ⟨mark, rfl⟩ : ∃ mark, operator = .mark mark := by
    cases operator <;> first | exact ⟨_, rfl⟩ | cases isOperator
  obtain ⟨leftPositive, rightPositive, isSpelled, noOpening, noClosing⟩ := operator_spec isOperator
  have noOperand : (Symbol.mark mark).endsOperand = false := noClosing
  have first := leftWritten.operand leftWritable leftPositive (accepts.mono fun _ => rfl)
  have second :=
    rightWritten.operand rightWritable rightPositive (accepts_behind noOperand pen.shape _)
  exact first.between isSpelled noOpening noClosing second

theorem written_function
    (span : Span)
    (parameters : List Text)
    (body : Expr)
    (written : body.Written) :
    (Expr.function span parameters body).Written := by
  refine .of_operand rfl fun writable pen accepts => ?_
  obtain ⟨writable, bodyWritable⟩ := Bool.and_eq_true_iff.mp writable
  obtain ⟨areNames, -⟩ := Bool.and_eq_true_iff.mp writable
  have start : Step pen (.mark .funWord) ⟨.behind (.mark .funWord), pen.shape, 0⟩ :=
    accepts.step rfl rfl (by decide) nofun
  obtain ⟨last, ends, writes, isOperand, noEnds⟩ :=
    written.2 bodyWritable (.mark .arrow) pen.shape rfl
  have names : Writes _ (parameters.map .name ++ [Terminal.mark .arrow]) _ :=
    writes_names areNames rfl rfl rfl (.mark .funWord) pen.shape
  have whole := Writes.step start (names.append writes)
  rw [List.append_assoc] at whole
  exact ⟨last, ends, whole, isOperand, noEnds⟩

theorem written_call
    (span : Span)
    (callee : Expr)
    (arguments : List Expr)
    (calleeWritten : callee.Written)
    (written : ∀ argument ∈ arguments, argument.Written) :
    (Expr.call span callee arguments).Written := by
  refine .of_operand rfl fun writable pen accepts => ?_
  obtain ⟨calleeWritable, writable⟩ := Bool.and_eq_true_iff.mp writable
  obtain ⟨last, ends, writesCallee, isOperand, noEnds⟩ :=
    calleeWritten.operand calleeWritable (Nat.succ_pos 6) (accepts.mono fun _ => rfl)
  cases noEnds rfl
  cases arguments with
  | nil =>
    have opening : Step ⟨.behind last, pen.shape, 0⟩ (.mark .openParen)
        ⟨.behind (.mark .openParen), .bracket :: pen.shape, 0⟩ :=
      step_behind (.mark .openParen) rfl rfl rfl pen.shape
    exact ⟨.mark .closeParen, 0,
      writesCallee.append (.step opening (.single (.closing rfl))), rfl, fun _ => rfl⟩
  | cons =>
    obtain ⟨final, ends, writesArguments, isOperand, noEnds⟩ :=
      argumentsWord_written written writable isOperand pen.shape
    exact ⟨final, ends, writesCallee.append writesArguments, isOperand, noEnds⟩

theorem written_index
    (span : Span)
    (target key : Expr)
    (targetWritten : target.Written)
    (keyWritten : key.Written) :
    (Expr.index span target key).Written := by
  refine .of_operand rfl fun writable pen accepts => ?_
  obtain ⟨targetWritable, keyWritable⟩ := Bool.and_eq_true_iff.mp writable
  obtain ⟨last, ends, writesTarget, isOperand, noEnds⟩ :=
    targetWritten.operand targetWritable (Nat.succ_pos 6) accepts
  cases noEnds rfl
  have inside := keyWritten.1 keyWritable ⟨.behind (.mark .openBracket), .bracket :: pen.shape, 0⟩
    (accepts_behind rfl ..)
  have closes : Mark.closeBracket.closesBracket = true := rfl
  obtain ⟨final, ends, writesKey, isOperand, noEnds⟩ :=
    WritesOperand.bracketed (.index isOperand) closes inside
  exact ⟨final, ends, writesTarget.append writesKey, isOperand, noEnds⟩

theorem written_block
    (span : Span)
    (statements : List Stmt)
    (written : ∀ stmt ∈ statements, stmt.Written) :
    (Expr.block span statements).Written := by
  refine ⟨(nomatch ·), fun writable previous shape opens => ?_⟩
  obtain ⟨nonempty, writable⟩ := Bool.and_eq_true_iff.mp writable
  have atLine : AtLine ⟨.blockLine, .block :: shape, 0⟩ := rfl
  obtain ⟨last, ends, writes, isOperand, -⟩ :=
    WritesOperand.joined_item (Stmt.words_ne_nil (by simpa using nonempty))
      (Stmt.words_written written writable) atLine nofun
  exact ⟨last, ends + 1, .step (.blockStart opens) (writes.append (.single .blockEnd)), isOperand,
    nofun⟩

end Expr

namespace Stmt

/-- What stands before the body of a statement, and the body. -/
theorem writes_value
    {value : Expr}
    (written : value.Written)
    (writable : value.writable true = true)
    (writes : Writes pen word ⟨.behind (.mark .assign), pen.shape, 0⟩) :
    pen.WritesOperand (word ++ value.word) true := by
  obtain ⟨last, ends, writesValue, isOperand, -⟩ :=
    written.2 writable (.mark .assign) pen.shape rfl
  exact ⟨last, ends, writes.append writesValue, isOperand, nofun⟩

/-- The words `let` or `var`, a name and its parameters up to `=`. -/
theorem writes_head
    (isWord : mark = .letWord ∨ mark = .varWord)
    {names : List Text}
    (areNames : names.all (·.isName) = true)
    (atLine : pen.AtLine) :
    Writes pen (.mark mark :: (names.map .name ++ [Terminal.mark .assign]))
      ⟨.behind (.mark .assign), pen.shape, 0⟩ := by
  have start : Step pen (.mark mark) ⟨.behind (.mark mark), pen.shape, 0⟩ := by
    rcases isWord with rfl | rfl <;>
      exact (atLine.accepts false).step rfl rfl (by decide) nofun
  exact .step start (writes_names areNames rfl rfl rfl _ _)

theorem written_binding
    (span : Span)
    (mutable : Bool)
    (name : Text)
    (value : Expr)
    (written : value.Written)
    (bodyWritten : ∀ place parameters body, value = .function place parameters body →
      body.Written) :
    (Stmt.binding span mutable name value).Written := by
  intro writable pen atLine
  obtain ⟨isName, valueWritable⟩ := Bool.and_eq_true_iff.mp writable
  have areNames : [name].all (·.isName) = true := by simpa using isName
  cases mutable with
  | true => exact writes_value written valueWritable (writes_head (.inr rfl) areNames atLine)
  | false =>
    have plain := writes_value written valueWritable (writes_head (.inl rfl) areNames atLine)
    cases value with
    | function place parameters body =>
      cases parameters with
      | nil => exact plain
      | cons parameter parameters =>
        obtain ⟨parametersWritable, bodyWritable⟩ := Bool.and_eq_true_iff.mp valueWritable
        obtain ⟨areParameters, -⟩ := Bool.and_eq_true_iff.mp parametersWritable
        have allNames : (name :: parameter :: parameters).all (·.isName) = true :=
          Bool.and_eq_true_iff.mpr ⟨isName, areParameters⟩
        have whole := writes_value (bodyWritten place _ body rfl) bodyWritable
          (writes_head (.inl rfl) allNames atLine)
        simpa [Stmt.word] using whole
    | _ => exact plain

theorem written_assignment (span : Span) (target : Text) (value : Expr) (written : value.Written) :
    (Stmt.assignment span target value).Written := by
  intro writable pen atLine
  obtain ⟨isName, valueWritable⟩ := Bool.and_eq_true_iff.mp writable
  have start : Step pen (.name target) ⟨.behind (.identifier target), pen.shape, 0⟩ :=
    (atLine.accepts false).step isName rfl nofun nofun
  exact writes_value written valueWritable
    (.step start (.single (step_mark rfl rfl rfl _ pen.shape)))

theorem written_expression (span : Span) (value : Expr) (written : value.Written) :
    (Stmt.expression span value).Written := by
  intro writable pen atLine
  exact (written.1 writable pen (atLine.accepts _)).unclosed

end Stmt

theorem treeSteps_written : TreeSteps Expr.Written Stmt.Written where
  leaf := Expr.written_leaf
  array := Expr.written_array
  set := Expr.written_set
  map := Expr.written_map
  binary := Expr.written_binary
  function := Expr.written_function
  call := Expr.written_call
  index := Expr.written_index
  block := Expr.written_block
  binding := Stmt.written_binding
  assignment := Stmt.written_assignment
  expression := Stmt.written_expression

end Offside
