import Offside.Proofs.Layout.Brackets
import Offside.Proofs.Layout.Displacement
import Offside.Proofs.Printing.Spelling
import Offside.Proofs.Syntax.Levels
import Offside.Proofs.Syntax.Regular

namespace Offside

/-!
# Bindings with parameters

A binding with parameters is written shorter than the binding of a function.  Both heads are
words and signs on the first line, and both end in a sign that lets a block follow, so the text
behind them is read and laid out alike.  The grammar makes the same tree of both, but the function
takes one level of nesting more.
-/

open Grammar Layout TokenStream

/-! ## Heads of bindings -/

/-- Whether a symbol stands in the head of a binding, behind the first word. -/
def Symbol.inHead : Symbol → Bool
  | .identifier name => name.isName
  | .mark .assign | .mark .funWord | .mark .arrow => true
  | _ => false

/-- Words, each behind a blank. -/
def Text.spaced (words : List Text) : Text :=
  words.flatMap (.scalar ' ' :: ·)

/-- A line of symbols behind the word that starts a binding. -/
def headOf (symbols : List Symbol) : Text :=
  "let" ++ Text.spaced (symbols.map (·.spelling))

namespace Symbol

variable {symbol : Symbol} (inHead : symbol.inHead = true)

include inHead

theorem writable_of_inHead : symbol.writable = true := by
  cases symbol with
  | identifier => exact inHead
  | mark mark => cases mark <;> first | rfl | cases inHead
  | _ => cases inHead

theorem isNegative_of_inHead : symbol.isNegative = false := by
  cases symbol with
  | int => cases inHead
  | _ => rfl

theorem noLine_of_inHead : symbol ≠ .mark .newline ∧ symbol ≠ .mark .endOfInput := by
  constructor
  · rintro rfl
    cases inHead
  · rintro rfl
    cases inHead

theorem noBracket_of_inHead {mark : Mark} (isMark : symbol = .mark mark) :
    mark.opensBracket = false ∧ mark.closesBracket = false := by
  subst isMark
  cases mark <;> first | exact ⟨rfl, rfl⟩ | cases inHead

end Symbol

section

variable {file : Option Text} {rest : Text} (parts : Parts rest) {symbols : List Symbol}

include parts

theorem parts_spaced (words : List Text) : Parts (Text.spaced words ++ rest) := by
  cases words with
  | nil => exact parts
  | cons => exact .cons (by decide)

/-- A symbol is read where its spelling is parted from what follows. -/
theorem exists_scan_spelling
    {symbol : Symbol}
    (writable : symbol.writable = true)
    (unsigned : symbol.isNegative = false)
    (signs : Bool) :
    ∃ first tail, symbol.spelling = first :: tail ∧
      scan signs first (tail ++ rest) = .token symbol (tail.length + 1) := by
  have allowed : symbol.isNegative = true → signs = true := by
    rw [unsigned]
    exact nofun
  obtain ⟨first, tail, isSpelling, alone⟩ := Symbol.scan_spelling writable allowed
  rw [← List.append_nil tail] at alone
  refine ⟨first, tail, isSpelling, ?_⟩
  have scanned := scan_replace alone (Nat.le_of_eq (by simp)) .nil parts
  rwa [List.append_nil] at scanned

/-- The symbols of a head are read from their spellings. -/
theorem exists_passage_spaced
    (inHead : ∀ symbol ∈ symbols, symbol.inHead = true)
    (start : Position)
    (signs : Bool) :
    ∃ tokens last, tokens.map (·.symbol) = symbols ∧
      Passage file ⟨start, 0, true, signs⟩ (Text.spaced (symbols.map (·.spelling)) ++ rest)
        tokens [] ⟨last, 0, true, (symbols.getLast?.map (!·.endsOperand)).getD signs⟩ rest := by
  induction symbols generalizing start signs with
  | nil => exact ⟨[], start, rfl, .done⟩
  | cons symbol symbols hypothesis =>
    obtain ⟨here, there⟩ := List.forall_mem_cons.mp inHead
    obtain ⟨first, tail, isSpelling, scanned⟩ :=
      exists_scan_spelling (parts_spaced parts (symbols.map (·.spelling)))
        (Symbol.writable_of_inHead here) (Symbol.isNegative_of_inHead here) signs
    obtain ⟨tokens, last, areSymbols, passage⟩ := hypothesis there
      ((start.advance (.scalar ' ')).advanceBy (first :: tail)) (!symbol.endsOperand)
    have sameSigns : ((symbol :: symbols).getLast?.map (!·.endsOperand)).getD signs =
        (symbols.getLast?.map (!·.endsOperand)).getD (!symbol.endsOperand) := by
      rw [List.getLast?_cons]
      cases symbols.getLast? <;> rfl
    refine ⟨pieceToken file symbol (first :: tail) (start.advance (.scalar ' ')) :: tokens, last,
      congrArg (symbol :: ·) areSymbols, ?_⟩
    have shape : Text.spaced ((symbol :: symbols).map (·.spelling)) ++ rest =
        .scalar ' ' :: (first :: (tail ++ (Text.spaced (symbols.map (·.spelling)) ++ rest))) := by
      simp [Text.spaced, isSpelling]
    rw [shape, sameSigns]
    exact .blank rfl (.token scanned passage)

end

/-- Symbols on one line without brackets run through the layout as they are. -/
theorem Layout.Run.of_line
    {tokens : List Token}
    (inHead : ∀ symbol ∈ tokens.map (·.symbol), symbol.inHead = true)
    (stack : Stack)
    (previous : Symbol) :
    Run [] ⟨some stack, some previous, false⟩ tokens tokens
      ⟨some stack, some ((tokens.map (·.symbol)).getLast?.getD previous), false⟩ := by
  induction tokens generalizing previous with
  | nil => exact .done
  | cons token tokens hypothesis =>
    obtain ⟨here, there⟩ := List.forall_mem_cons.mp inHead
    have stays : passBracket stack token = ([], stack) := by
      unfold passBracket
      split
      · next mark isMark =>
          obtain ⟨noOpening, noClosing⟩ := Symbol.noBracket_of_inHead here isMark
          rw [noOpening, noClosing]
          rfl
      · rfl
    obtain ⟨noNewline, noEnd⟩ := Symbol.noLine_of_inHead here
    have sameLast : (tokens.map (·.symbol)).getLast?.getD token.symbol =
        ((token :: tokens).map (·.symbol)).getLast?.getD previous := by
      rw [List.map_cons, List.getLast?_cons]
      rfl
    rw [← sameLast]
    exact .kept noNewline noEnd rfl stays (hypothesis there token.symbol)

/-- Symbols without brackets are terminals as they are. -/
theorem terminalsAfter_of_line
    {tokens : List Token}
    (inHead : ∀ symbol ∈ tokens.map (·.symbol), symbol.inHead = true)
    (before : Option Token) :
    terminalsAfter before tokens = (tokens.map (·.symbol)).map .symbol := by
  induction tokens generalizing before with
  | nil => rfl
  | cons token tokens hypothesis =>
    obtain ⟨here, there⟩ := List.forall_mem_cons.mp inHead
    have noOpening : token.isMark .openBracket = false := by
      refine decide_eq_false fun isMark => ?_
      cases (Symbol.noBracket_of_inHead here isMark).1
    rw [terminalsAfter, hypothesis there, Terminal.ofToken, noOpening]
    rfl

/-- The symbols of a head behind its first word; the last one lets a block follow. -/
structure IsHead (symbols : List Symbol) (last : Symbol) : Prop where
  inHead : ∀ symbol ∈ symbols, symbol.inHead = true
  isLast : symbols.getLast? = some last
  opens : opensBlock last = true

theorem Symbol.endsOperand_of_opensBlock {symbol : Symbol} (opens : opensBlock symbol = true) :
    symbol.endsOperand = false := by
  cases symbol with
  | mark mark => cases mark <;> first | rfl | cases opens
  | _ => cases opens

/-- A head at the start of a source: it is read and laid out as it is, and what follows may start
with a sign. -/
theorem IsHead.exists_passage
    {symbols : List Symbol} {last : Symbol}
    (isHead : IsHead symbols last)
    (file : Option Text)
    {rest : Text}
    (parts : Parts rest) :
    ∃ tokens records place,
      Passage file .initial (headOf symbols ++ rest) tokens records ⟨place, 0, true, true⟩ rest ∧
        Run [] .initial tokens tokens ⟨some ⟨1, []⟩, some last, false⟩ ∧
          ∀ out, terminals (tokens ++ out) =
            .mark .letWord :: (symbols.map .symbol ++ terminals out) := by
  have noOperand := Symbol.endsOperand_of_opensBlock isHead.opens
  obtain ⟨first, tail, isSpelling, scanned⟩ :=
    exists_scan_spelling (parts_spaced parts (symbols.map (·.spelling)))
      (show (Symbol.mark .letWord).writable = true from rfl) rfl true
  obtain ⟨tokens, place, areSymbols, passage⟩ :=
    exists_passage_spaced parts isHead.inHead (Position.origin.advanceBy (first :: tail)) true
  rw [isHead.isLast, Option.map_some, Option.getD_some, noOperand] at passage
  have inHead : ∀ symbol ∈ tokens.map (·.symbol), symbol.inHead = true :=
    areSymbols ▸ isHead.inHead
  have ran := Run.of_line inHead ⟨1, []⟩ (.mark .letWord)
  rw [areSymbols, isHead.isLast, Option.getD_some] at ran
  have whole : Passage file .initial _ _ _ _ rest := .token scanned passage
  have shape : first :: (tail ++ (Text.spaced (symbols.map (·.spelling)) ++ rest)) =
      headOf symbols ++ rest := by
    have isLet : ("let" : Text) = first :: tail := isSpelling
    rw [headOf, isLet, List.append_assoc]
    rfl
  have starts : arrive [] .initial (pieceToken file (.mark .letWord) (first :: tail) .origin) =
      some ([], ⟨1, []⟩) := rfl
  refine ⟨_, _, place, shape ▸ whole, .token (by rintro ⟨⟩) (by rintro ⟨⟩) starts ran,
    fun out => ?_⟩
  obtain ⟨token, isToken, rfl⟩ : ∃ token, tokens.getLast? = some token ∧ token.symbol = last := by
    rw [← Option.map_eq_some_iff, ← List.getLast?_map, areSymbols]
    exact isHead.isLast
  have behind : terminalsAfter (some token) out = terminals out :=
    terminalsAfter_eq_terminals (by rintro _ ⟨⟩; exact noOperand) out
  rw [List.cons_append, terminals, terminalsAfter, terminalsAfter_append,
    terminalsAfter_of_line inHead, areSymbols, isToken, Option.some_or, behind]
  rfl

/-- Behind heads, a text is laid out alike: if it is laid out behind the one, then behind the
other, too, and the grammar sees the same terminals. -/
theorem IsHead.layoutTokens
    {here there : List Symbol} {last final : Symbol}
    (isHere : IsHead here last)
    (isThere : IsHead there final)
    {file : Option Text} {body : Text}
    (parts : Parts body)
    {tokens : List Token}
    (laidOut : layoutTokens file (headOf here ++ body) = .ok tokens) :
    ∃ others word, Offside.layoutTokens file (headOf there ++ body) = .ok others ∧
      terminals tokens = .mark .letWord :: (here.map .symbol ++ word) ∧
        terminals others = .mark .letWord :: (there.map .symbol ++ word) := by
  obtain ⟨head, records, place, passage, run, seen⟩ := isHere.exists_passage file parts
  obtain ⟨otherHead, otherRecords, otherPlace, otherPassage, otherRun, otherSeen⟩ :=
    isThere.exists_passage file parts
  obtain ⟨more, further, stop, through⟩ := passage.exists_rest laidOut
  obtain ⟨others, otherFurther, otherStop, otherThrough, corresponds⟩ :=
    through.displaced rfl otherPlace nofun (Nat.add_comm place.offset otherPlace.offset)
  let behind : State := ⟨some ⟨1, []⟩, some last, false⟩
  have agrees := resolveFrom_agrees corresponds
    (show behind.Matches .same behind from ⟨.some ⟨rfl, .nil⟩, rfl, rfl⟩) nofun
  have sameOpening : opensBlock last = opensBlock final := isHere.opens.trans isThere.opens.symm
  rw [layoutTokens_eq_of_passage (passage.trans through), resolve, List.append_assoc,
    run.resolveFrom_eq] at laidOut
  rw [layoutTokens_eq_of_passage (otherPassage.trans otherThrough), resolve, List.append_assoc,
    otherRun.resolveFrom_eq, ← resolveFrom_previous sameOpening]
  generalize resolveFrom [] _ (more ++ endTokens file stop) = result at agrees laidOut
  generalize resolveFrom [] _ (others ++ endTokens file otherStop) = otherResult at agrees ⊢
  cases agrees with
  | refused => cases laidOut
  | @laid out otherOut alike =>
    cases laidOut
    refine ⟨otherHead ++ otherOut, terminals out, rfl, seen out, ?_⟩
    rw [otherSeen, terminals, terminals, terminalsAfter_displaced .none alike]

/-! ## Trees of bindings -/

/-- Names in front of another sign can be told apart from what follows. -/
theorem names_inj
    {names others : List Text} {mark other : Mark} {word rest : Word}
    (same : names.map .name ++ .mark mark :: word = others.map .name ++ .mark other :: rest) :
    names = others ∧ word = rest := by
  induction names generalizing others with
  | nil =>
    cases others with
    | nil => exact ⟨rfl, (List.cons.inj same).2⟩
    | cons => cases (List.cons.inj same).1
  | cons name names hypothesis =>
    cases others with
    | nil => cases (List.cons.inj same).1
    | cons other others =>
      obtain ⟨sameName, further⟩ := List.cons.inj same
      obtain ⟨rfl, rfl⟩ := hypothesis further
      cases sameName
      exact ⟨rfl, rfl⟩

namespace Grammar

variable {inner : Phrase → Word → Expr → Prop} {name : Text} {word : Word} {stmts : List Stmt}

/-- A program that starts with the binding of a name. -/
theorem programOf_binding_iff :
    ProgramOf inner (.mark .letWord :: .name name :: word) stmts ↔
      ∃ parameters body value rest others,
        parameters.Nodup ∧ inner .body body value ∧
          Rest .itemSeparator false (Statement inner) rest others ∧
            word = parameters.map .name ++ .mark .assign ::
              (body ++ (rest ++ [Terminal.mark .endOfInput])) ∧
              stmts = .binding .nowhere false name (bindingValue parameters value) :: others := by
  constructor
  · intro derived
    generalize shape : .mark .letWord :: .name name :: word = whole at derived
    cases derived with
    | empty => cases shape
    | statements series =>
      cases series with
      | intro statement further =>
        cases statement with
        | binding binding =>
          cases binding with
          | intro distinct derived =>
            simp only [List.cons_append, List.append_assoc, List.cons.injEq, true_and] at shape
            obtain ⟨⟨⟩, rfl⟩ := shape
            exact ⟨_, _, _, _, _, distinct, derived, further, rfl, rfl⟩
        | bindings => cases (List.cons.inj (List.cons.inj shape).2).1
        | mutable
        | assignment => cases (List.cons.inj shape).1
        | expression expression =>
          obtain ⟨terminal, tail, rfl, opens⟩ := expression.starts
          cases (List.cons.inj shape).1
          cases opens
  · rintro ⟨parameters, body, value, rest, others, distinct, derived, further, rfl, rfl⟩
    have binding :
        Binding inner (.name name :: (parameters.map .name ++ .mark .assign :: body)) _ :=
      .intro distinct derived
    have program := ProgramOf.statements (.intro (.binding binding) further)
    simpa using program

/-- A body that starts like a function is one. -/
theorem function_of_body
    {body rest : Word} {value : Expr} {parameters : List Text}
    (derived : PhraseOf inner .body body value)
    (shape : body ++ rest = .mark .funWord :: (parameters.map .name ++ .mark .arrow :: word)) :
    ∃ inside tree, parameters.Nodup ∧ inner .body inside tree ∧ word = inside ++ rest ∧
      value = .function .nowhere parameters tree := by
  cases derived with
  | block => cases (List.cons.inj shape).1
  | body expression =>
    cases expression with
    | operand operand =>
      obtain ⟨terminal, tail, rfl, opens⟩ := operand.starts
      cases (List.cons.inj shape).1
      cases opens
    | function distinct derived =>
      have same := (List.cons.inj shape).2
      rw [List.append_eq, List.append_assoc] at same
      obtain ⟨rfl, rfl⟩ := names_inj same
      exact ⟨_, _, distinct, derived, rfl, rfl⟩

/-- A binding with parameters has the tree of the binding of a function, which nests as deep as
a body does. -/
theorem ProgramOf.function_of_binding
    {parameters : List Text} {room : Nat}
    (nonempty : parameters ≠ [])
    (derived : ProgramOf (Within room)
      (.mark .letWord :: .name name :: (parameters.map .name ++ .mark .assign :: word)) stmts) :
    ProgramOf (Within (room + 6))
      (.mark .letWord :: .name name :: .mark .assign :: .mark .funWord ::
        (parameters.map .name ++ .mark .arrow :: word)) stmts := by
  obtain ⟨_, body, value, rest, others, distinct, inside, further, shape, rfl⟩ :=
    programOf_binding_iff.mp derived
  obtain ⟨rfl, rfl⟩ := names_inj shape
  have isFunction : bindingValue parameters value = .function .nowhere parameters value := by
    simp [bindingValue, nonempty]
  have function : Within (room + 6) .body
      (.mark .funWord :: (parameters.map .name ++ .mark .arrow :: body)) _ :=
    .body (.function distinct inside)
  refine programOf_binding_iff.mpr
    ⟨[], _, _, rest, others, List.nodup_nil, function, ?_, ?_, by rw [isFunction]; rfl⟩
  · exact further.mono fun _ _ => Statement.mono fun _ _ _ inside =>
      inside.mono (Nat.le_add_right ..)
  · simp

theorem ProgramOf.binding_of_function
    {parameters : List Text} {room : Nat}
    (nonempty : parameters ≠ [])
    (derived : ProgramOf (Within room)
      (.mark .letWord :: .name name :: .mark .assign :: .mark .funWord ::
        (parameters.map .name ++ .mark .arrow :: word)) stmts) :
    ProgramOf (Within room)
      (.mark .letWord :: .name name :: (parameters.map .name ++ .mark .assign :: word)) stmts := by
  obtain ⟨_, body, value, rest, others, -, function, further, shape, rfl⟩ :=
    programOf_binding_iff.mp derived
  have atSign : ([] : List Text).map .name ++ .mark .assign :: .mark .funWord ::
      (parameters.map .name ++ .mark .arrow :: word) = _ := shape
  obtain ⟨rfl, isBody⟩ := names_inj atSign
  obtain ⟨-, phrase⟩ := within_iff.mp function
  obtain ⟨inside, tree, distinct, inBody, rfl, rfl⟩ := function_of_body phrase isBody.symm
  have isFunction : bindingValue parameters tree = .function .nowhere parameters tree := by
    simp [bindingValue, nonempty]
  refine programOf_binding_iff.mpr
    ⟨parameters, inside, tree, rest, others, distinct, inBody.mono (Nat.sub_le ..), further,
      rfl, ?_⟩
  rw [isFunction]
  rfl

end Grammar

/-! ## Sources -/

/-- The head of a binding with parameters. -/
def bindingHead (name : Text) (parameters : List Text) : Text :=
  Text.ofString "let" ++ Text.spaced (name :: parameters) ++ " ="

/-- The head of the binding of a function. -/
def functionHead (name : Text) (parameters : List Text) : Text :=
  Text.ofString "let" ++ Text.spaced [name] ++ " = fun" ++ Text.spaced parameters ++ " ->"

/-- The symbols of the head of a binding with parameters. -/
def bindingSymbols (name : Text) (parameters : List Text) : List Symbol :=
  (name :: parameters).map .identifier ++ [.mark .assign]

/-- The symbols of the head of the binding of a function. -/
def functionSymbols (name : Text) (parameters : List Text) : List Symbol :=
  [.identifier name, .mark .assign, .mark .funWord] ++ parameters.map .identifier ++ [.mark .arrow]

section

variable {name : Text} {parameters : List Text}
  (areNames : (name :: parameters).all Text.isName = true)

include areNames

theorem inHead_of_isName :
    ∀ symbol ∈ (name :: parameters).map Symbol.identifier, symbol.inHead = true :=
  List.forall_mem_map.mpr (List.all_eq_true.mp areNames)

theorem isHead_bindingSymbols : IsHead (bindingSymbols name parameters) (.mark .assign) := by
  refine ⟨List.forall_mem_append.mpr ⟨?_, ?_⟩, List.getLast?_concat, rfl⟩
  · exact inHead_of_isName areNames
  · exact List.forall_mem_singleton.mpr rfl

theorem isHead_functionSymbols : IsHead (functionSymbols name parameters) (.mark .arrow) := by
  obtain ⟨isName, areNames⟩ := List.forall_mem_cons.mp (inHead_of_isName areNames)
  refine ⟨List.forall_mem_append.mpr ⟨List.forall_mem_append.mpr ⟨?_, areNames⟩, ?_⟩,
    List.getLast?_concat, rfl⟩
  · exact List.forall_mem_cons.mpr
      ⟨isName, List.forall_mem_cons.mpr ⟨rfl, List.forall_mem_singleton.mpr rfl⟩⟩
  · exact List.forall_mem_singleton.mpr rfl

end

theorem spelling_names (names : List Text) :
    (names.map Symbol.identifier).map (·.spelling) = names := by
  rw [List.map_map]
  exact List.map_id names

theorem headOf_bindingSymbols (name : Text) (parameters : List Text) :
    headOf (bindingSymbols name parameters) = bindingHead name parameters := by
  rw [headOf, bindingSymbols, List.map_append, spelling_names, Text.spaced, List.flatMap_append,
    ← List.append_assoc]
  rfl

theorem headOf_functionSymbols (name : Text) (parameters : List Text) :
    headOf (functionSymbols name parameters) = functionHead name parameters := by
  rw [headOf, functionSymbols, List.map_append, List.map_append, spelling_names, Text.spaced,
    List.flatMap_append, List.flatMap_append]
  simp only [functionHead, Text.spaced, List.map_cons, List.flatMap_cons, List.append_assoc]
  rfl

theorem terminals_bindingSymbols (name : Text) (parameters : List Text) (word : Word) :
    (bindingSymbols name parameters).map .symbol ++ word =
      .name name :: (parameters.map .name ++ .mark .assign :: word) := by
  rw [bindingSymbols, List.map_append, List.map_map, List.append_assoc]
  rfl

theorem terminals_functionSymbols (name : Text) (parameters : List Text) (word : Word) :
    (functionSymbols name parameters).map .symbol ++ word =
      .name name :: .mark .assign :: .mark .funWord ::
        (parameters.map .name ++ .mark .arrow :: word) := by
  rw [functionSymbols, List.map_append, List.map_append, List.map_map, List.append_assoc,
    List.append_assoc]
  rfl

/-- A binding with parameters is read exactly if the binding of a function with the same
parameters and the same text behind it is, and as the same tree; only the function may be nested
too deeply where the binding is not. -/
theorem parameters_abbreviate_function
    (file : Option Text)
    (name : Text)
    (parameters : List Text)
    (body : Text)
    (areNames : (name :: parameters).all Text.isName = true)
    (nonempty : parameters ≠ [])
    (parted : body.head? = some (.scalar ' ') ∨ body.head? = some (.scalar '\n')) :
    (∀ program, Program.ofSource file (bindingHead name parameters ++ body) = .ok program →
      (∃ other, Program.ofSource file (functionHead name parameters ++ body) = .ok other ∧
        Stmt.bareAll other.statements = Stmt.bareAll program.statements) ∨
      ∃ fault, Program.ofSource file (functionHead name parameters ++ body) =
        .error (.fault fault) ∧ Reading.TooDeep fault) ∧
    ∀ program, Program.ofSource file (functionHead name parameters ++ body) = .ok program →
      ∃ other, Program.ofSource file (bindingHead name parameters ++ body) = .ok other ∧
        Stmt.bareAll other.statements = Stmt.bareAll program.statements := by
  have parts : Parts body := by
    rcases parted with isBlank | isFeed
    · obtain ⟨tail, rfl⟩ := List.head?_eq_some_iff.mp isBlank
      exact .cons (by decide)
    · obtain ⟨tail, rfl⟩ := List.head?_eq_some_iff.mp isFeed
      exact .cons (by decide)
  have isBinding := isHead_bindingSymbols areNames
  have isFunction := isHead_functionSymbols areNames
  rw [← headOf_bindingSymbols, ← headOf_functionSymbols]
  constructor
  · intro program read
    obtain ⟨tokens, laidOut, readTokens⟩ := Program.exists_tokens_of_ofSource read
    have derived := Program.derived_of_ofTokens (endsOnce_of_layoutTokens laidOut) readTokens
    obtain ⟨others, word, otherLaidOut, seen, otherSeen⟩ :=
      isBinding.layoutTokens isFunction parts laidOut
    rw [terminals_bindingSymbols] at seen
    rw [terminals_functionSymbols] at otherSeen
    have function := ProgramOf.function_of_binding nonempty (seen ▸ derived)
    rcases Program.ofSource_of_derived otherLaidOut
      (endsOnce_of_layoutTokens otherLaidOut) (otherSeen ▸ function) with
      isRead | ⟨-, isTooDeep⟩
    · exact .inl isRead
    · exact .inr isTooDeep
  · intro program read
    obtain ⟨tokens, laidOut, readTokens⟩ := Program.exists_tokens_of_ofSource read
    have derived := Program.derived_of_ofTokens (endsOnce_of_layoutTokens laidOut) readTokens
    obtain ⟨others, word, otherLaidOut, seen, otherSeen⟩ :=
      isFunction.layoutTokens isBinding parts laidOut
    rw [terminals_functionSymbols] at seen
    rw [terminals_bindingSymbols] at otherSeen
    have binding := ProgramOf.binding_of_function nonempty (seen ▸ derived)
    rcases Program.ofSource_of_derived otherLaidOut
      (endsOnce_of_layoutTokens otherLaidOut) (otherSeen ▸ binding) with
      isRead | ⟨noRoom, -⟩
    · exact isRead
    · exact (Nat.lt_irrefl _ noRoom).elim

/-- The text behind the heads may hold a block with a block in brackets, and further statements;
both sources are read, as two statements. -/
theorem parameters_abbreviate_function_block :
    let body : Text := "\n  g (fun z ->\n    x z)\n  y\nf 1 2"
    (List.all [("f" : Text), "x", "y"] Text.isName = true ∧ [("x" : Text), "y"] ≠ [] ∧
      body.head? = some (.scalar '\n')) ∧
    ∃ function binding,
      Program.ofSource none (functionHead "f" ["x", "y"] ++ body) = .ok function ∧
      function.statements.length = 2 ∧
      Program.ofSource none (bindingHead "f" ["x", "y"] ++ body) = .ok binding ∧
      Stmt.bareAll binding.statements = Stmt.bareAll function.statements := by
  intro body
  have passes : (Program.ofSource none (functionHead "f" ["x", "y"] ++ body)).toOption.any
      (·.statements.length == 2) = true := by decide +kernel
  obtain ⟨function, read, length⟩ := Program.exists_of_any passes
  obtain ⟨binding, bindingRead, same⟩ := (parameters_abbreviate_function none "f" ["x", "y"] body
    (by decide) nofun (.inr rfl)).2 function read
  exact ⟨⟨by decide, nofun, rfl⟩, function, binding, read, eq_of_beq length, bindingRead, same⟩

end Offside
