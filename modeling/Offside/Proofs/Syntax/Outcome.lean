import Offside.Proofs.Syntax.Grammar

namespace Offside

/-!
# What readers do in front of a word

Apart from the spans that it records, a reader sees only the terminals of the tokens in
front of its cursor.  `Reading.Gives` says what it may accept in front of a word and with
which faults it may fail; the rules below follow the parts that readers are made of.
-/

variable {mark : Mark} {cursor : Cursor} {terminal : Terminal} {rest : Word} {fails : Fault → Prop}

namespace Terminal

/-- A terminal keeps the symbol of its token. -/
theorem ofToken_toSymbol (before : Option Token) (token : Token) :
    (ofToken before token).toSymbol = token.symbol := by
  unfold ofToken
  split
  · next found =>
      have isOpening := (Bool.and_eq_true_iff.mp found).1
      exact (of_decide_eq_true isOpening).symm
  · rfl

/-- Only of a `[` does the terminal say more than the symbol. -/
theorem eq_mark_iff (noOpening : mark ≠ .openBracket) :
    terminal = .mark mark ↔ terminal.toSymbol = .mark mark := by
  cases terminal with
  | symbol => exact Terminal.symbol.injEq .. ▸ Iff.rfl
  | indexBracket => exact ⟨nofun, fun same => (noOpening (Symbol.mark.inj same).symm).elim⟩

theorem eq_name_iff {name : Text} :
    terminal = .name name ↔ terminal.toSymbol = .identifier name := by
  cases terminal with
  | symbol => exact Terminal.symbol.injEq .. ▸ Iff.rfl
  | indexBracket => exact ⟨nofun, nofun⟩

end Terminal

namespace Cursor

/-- The terminals in front of a cursor, the current one first. -/
def terminals (cursor : Cursor) : Word :=
  terminalsAfter cursor.before (cursor.current :: cursor.after)

/-- The first terminal in front of a cursor is that of the current token. -/
theorem symbol_eq (shape : cursor.terminals = terminal :: rest) :
    cursor.current.symbol = terminal.toSymbol := by
  rw [← (List.cons.inj shape).1]
  exact (Terminal.ofToken_toSymbol ..).symm

/-- Whether the current token is a mark can be seen from its terminal. -/
theorem isMark_eq (shape : cursor.terminals = terminal :: rest) (noOpening : mark ≠ .openBracket) :
    cursor.current.isMark mark = decide (terminal = .mark mark) := by
  have sameSymbol : cursor.current.isMark mark =
      decide (cursor.current.symbol = .mark mark) := rfl
  rw [sameSymbol, decide_eq_decide, symbol_eq shape]
  exact (Terminal.eq_mark_iff noOpening).symm

/-- A cursor moves on by one terminal, unless it is at the end of input. -/
theorem next_eq
    (shape : cursor.terminals = terminal :: rest)
    (inside : terminal ≠ .mark .endOfInput)
    (goesOn : rest ≠ []) :
    cursor.next.terminals = rest ∧ cursor.next.before = some cursor.current := by
  have notEnd : cursor.current.isMark .endOfInput = false :=
    (isMark_eq shape Mark.noConfusion).trans (decide_eq_false inside)
  have tail := (List.cons.inj shape).2
  obtain ⟨before, token, after⟩ := cursor
  cases after with
  | nil => exact (goesOn tail.symm).elim
  | cons token' after =>
    have moves : (⟨before, token, token' :: after⟩ : Cursor).next =
        ⟨some token, token', after⟩ := by
      simp [next, show token.isMark .endOfInput = false from notEnd]
    rw [moves]
    exact ⟨tail, rfl⟩

/-- A mark follows the current token if it is the second terminal. -/
theorem isMark_following_iff
    (noOpening : mark ≠ .openBracket)
    (shape : cursor.terminals = terminal :: rest)
    (different : terminal ≠ .mark mark) :
    cursor.following.isMark mark = true ↔ rest.head? = some (.mark mark) := by
  have tail := (List.cons.inj shape).2
  obtain ⟨before, token, after⟩ := cursor
  cases after with
  | nil =>
    have notCurrent := (isMark_eq shape noOpening).trans (decide_eq_false different)
    rw [← tail]
    exact iff_of_false (Bool.not_eq_true _ ▸ notCurrent) nofun
  | cons following after =>
    have same : following.symbol = (Terminal.ofToken (some token) following).toSymbol :=
      (Terminal.ofToken_toSymbol ..).symm
    rw [← tail]
    show decide (following.symbol = .mark mark) = true ↔ some _ = some _
    rw [decide_eq_true_iff, Option.some.injEq, same]
    exact (Terminal.eq_mark_iff noOpening).symm

end Cursor

/-- A word with the end of input at its end and nowhere else. -/
inductive Ended : Word → Prop where
  | last :
      Ended [.mark .endOfInput]
  | cons
      {terminal : Terminal} {rest : Word} :
      terminal ≠ .mark .endOfInput →
      Ended rest →
      Ended (terminal :: rest)

namespace Ended

variable {word : Word}

theorem ne_nil (ended : Ended word) : word ≠ [] := by
  rintro rfl
  cases ended

/-- A word still ends once when a terminal at its start is passed. -/
theorem tail (ended : Ended (terminal :: rest)) (inside : terminal ≠ .mark .endOfInput) :
    Ended rest := by
  cases ended with
  | last => exact (inside rfl).elim
  | cons _ ended => exact ended

/-- Nothing stands behind the end of input. -/
theorem eq_nil (ended : Ended (.mark .endOfInput :: rest)) : rest = [] := by
  cases ended with
  | last => rfl
  | cons inside _ => exact (inside rfl).elim

/-- What is left of a word that ends once ends once. -/
theorem of_append (ended : Ended (word ++ rest)) (nonempty : rest ≠ []) : Ended rest := by
  induction word with
  | nil => exact ended
  | cons terminal word hypothesis =>
    refine hypothesis (Ended.tail ended ?_)
    rintro rfl
    exact nonempty (List.append_eq_nil_iff.mp (eq_nil ended)).2

end Ended

/-- Behind a terminal that ends no operand, a `[` starts an array. -/
def Loose (word : Word) : Prop :=
  word.head? ≠ some .indexBracket

/-- Behind a token that ends no operand, a `[` is no index. -/
theorem Cursor.loose_of_before
    {last : Token}
    (isLast : cursor.before = some last)
    (noOperand : last.symbol.endsOperand = false) :
    Loose cursor.terminals := by
  intro same
  have isIndex := Option.some.inj same
  rw [isLast, Terminal.ofToken] at isIndex
  simp [noOperand] at isIndex

namespace Reading

variable {next : Cursor}

/-- In front of the word `before`, a reader only accepts what `accepts` says of the word that
is left and of the result, and only fails with faults of `fails`. -/
def Gives {α : Type} (reading : Reading α) (before : Word) (accepts : Word → α → Prop)
    (fails : Fault → Prop) : Prop :=
  ∀ cursor : Cursor, cursor.terminals = before →
    match reading cursor with
    | .ok (value, next) => accepts next.terminals value
    | .error fault => fails fault

namespace Gives

variable {α β : Type} {before after : Word} {reading : Reading α} {continuation : α → Reading β}
  {accepts : Word → β → Prop} {what : Text}

theorem pure {value : β} (holds : accepts before value) :
    Gives (Pure.pure value) before accepts fails := by
  rintro cursor rfl
  exact holds

/-- Two readers one after the other give what the second gives behind the first. -/
theorem bind
    {middle : Word → α → Prop}
    (first : Gives reading before middle fails)
    (second : ∀ after value, middle after value →
      Gives (continuation value) after accepts fails) :
    Gives (reading >>= continuation) before accepts fails := by
  intro cursor shape
  have ran := first cursor shape
  show match reading cursor >>= fun pair => continuation pair.1 pair.2 with
    | .ok (value, next) => accepts next.terminals value
    | .error fault => fails fault
  cases result : reading cursor with
  | error => rwa [result] at ran
  | ok pair =>
    rw [result] at ran
    exact second _ _ ran pair.2 rfl

/-- A reader that passes a known word. -/
theorem go
    {holds : α → Prop}
    (first : Gives reading before (fun rest value => rest = after ∧ holds value) fails)
    (second : ∀ value, holds value → Gives (continuation value) after accepts fails) :
    Gives (reading >>= continuation) before accepts fails :=
  bind first fun _ value ⟨passes, holding⟩ => passes ▸ second value holding

/-- A reader that passes a known word and gives a known result. -/
theorem look
    {result : α}
    (first : Gives reading before (fun rest value => rest = after ∧ value = result) fails)
    (second : Gives (continuation result) after accepts fails) :
    Gives (reading >>= continuation) before accepts fails :=
  go first fun _ isResult => isResult ▸ second

/-- What is known of an accepted value may be weakened. -/
theorem mono
    {accepts weaker : Word → α → Prop}
    (gives : Gives reading before accepts fails)
    (weaken : ∀ after value, accepts after value → weaker after value) :
    Gives reading before weaker fails := by
  intro cursor shape
  have ran := gives cursor shape
  cases result : reading cursor with
  | error => rwa [result] at ran
  | ok =>
    rw [result] at ran
    exact weaken _ _ ran

/-- A reader that fails accepts nothing. -/
theorem failAt
    {cause : SyntacticCause} {span : Span}
    (isFault : fails (.located (.syntactic cause) span)) :
    Gives (Reading.failAt cause span) before accepts fails :=
  fun _ _ => isFault

/-- A look at the current token passes nothing. -/
theorem current :
    Gives Reading.current (terminal :: rest)
      (fun after token => after = terminal :: rest ∧ token.symbol = terminal.toSymbol) fails :=
  fun cursor shape => ⟨shape, cursor.symbol_eq shape⟩

/-- A reader that finds something else than it expects fails. -/
theorem expected (isFault : ∀ fault, fails fault) :
    Gives (Reading.expected what) before accepts fails := by
  rintro cursor rfl
  refine bind current ?_ cursor rfl
  intro after token _
  split
  · exact failAt (isFault _)
  · exact failAt (isFault _)

/-- A look for a mark passes nothing and finds it if it is the first terminal. -/
theorem atMark (noOpening : mark ≠ .openBracket) :
    Gives (Reading.atMark mark) (terminal :: rest)
      (fun after found => after = terminal :: rest ∧ found = decide (terminal = .mark mark))
      fails :=
  fun _ shape => ⟨shape, Cursor.isMark_eq shape noOpening⟩

theorem atMark_of_eq (noOpening : mark ≠ .openBracket) :
    Gives (Reading.atMark mark) (.mark mark :: rest)
      (fun after found => after = .mark mark :: rest ∧ found = true) fails :=
  (atMark noOpening).mono fun _ _ ⟨stays, found⟩ => ⟨stays, found.trans (decide_eq_true rfl)⟩

theorem atMark_of_ne (noOpening : mark ≠ .openBracket) (different : terminal ≠ .mark mark) :
    Gives (Reading.atMark mark) (terminal :: rest)
      (fun after found => after = terminal :: rest ∧ found = false) fails :=
  (atMark noOpening).mono fun _ _ ⟨stays, found⟩ =>
    ⟨stays, found.trans (decide_eq_false different)⟩

/-- Behind a token that ends no operand the reader stands in front of a loose word. -/
theorem advance (inside : terminal ≠ .mark .endOfInput) (goesOn : rest ≠ []) :
    Gives Reading.advance (terminal :: rest)
      (fun after token => after = rest ∧ token.symbol = terminal.toSymbol ∧
        (terminal.toSymbol.endsOperand = false → Loose rest)) fails := by
  intro cursor shape
  obtain ⟨passes, isBefore⟩ := Cursor.next_eq shape inside goesOn
  have same := cursor.symbol_eq shape
  refine ⟨passes, same, fun noOperand => ?_⟩
  rw [← passes]
  exact Cursor.loose_of_before isBefore (same ▸ noOperand)

/-- A mark that is there is passed, and what stands behind it is no index unless it closes a
bracket. -/
theorem passMark_of_eq
    (noOpening : mark ≠ .openBracket)
    (inside : mark ≠ .endOfInput)
    (goesOn : rest ≠ []) :
    Gives (Reading.passMark mark) (.mark mark :: rest)
      (fun after found => after = rest ∧ found = true ∧ (mark.closesBracket = false → Loose rest))
      fails := by
  refine bind (atMark_of_eq noOpening) ?_
  rintro _ _ ⟨rfl, rfl⟩
  refine bind (advance (fun same => inside (by cases same; rfl)) goesOn) ?_
  rintro _ _ ⟨rfl, -, loose⟩
  exact pure ⟨rfl, rfl, loose⟩

/-- Behind a mark that is passed the reader goes on. -/
theorem pass
    {continuation : Bool → Reading β}
    (noOpening : mark ≠ .openBracket)
    (inside : mark ≠ .endOfInput)
    (goesOn : rest ≠ [])
    (second : (mark.closesBracket = false → Loose rest) →
      Gives (continuation true) rest accepts fails) :
    Gives (Reading.passMark mark >>= continuation) (.mark mark :: rest) accepts fails :=
  go (passMark_of_eq noOpening inside goesOn) fun _ ⟨found, loose⟩ => found ▸ second loose

/-- A mark that is not there is not passed. -/
theorem passMark_of_ne (noOpening : mark ≠ .openBracket) (different : terminal ≠ .mark mark) :
    Gives (Reading.passMark mark) (terminal :: rest)
      (fun after found => after = terminal :: rest ∧ found = false) fails := by
  refine bind (atMark_of_ne noOpening different) ?_
  rintro _ _ ⟨rfl, rfl⟩
  exact pure ⟨rfl, rfl⟩

/-- A mark that is required is passed, or the reader fails. -/
theorem requireMark
    (noOpening : mark ≠ .openBracket)
    (inside : mark ≠ .endOfInput)
    (goesOn : terminal = .mark mark → rest ≠ [])
    (isFault : terminal ≠ .mark mark → ∀ fault, fails fault) :
    Gives (Reading.requireMark mark what) (terminal :: rest)
      (fun after _ => after = rest ∧ terminal = .mark mark ∧
        (mark.closesBracket = false → Loose rest)) fails := by
  refine bind (atMark noOpening) ?_
  rintro _ _ ⟨rfl, rfl⟩
  split
  · next found =>
      have same := of_decide_eq_true found
      subst same
      refine (advance (fun same => inside (by cases same; rfl)) (goesOn rfl)).mono ?_
      rintro _ _ ⟨rfl, -, loose⟩
      exact ⟨rfl, rfl, loose⟩
  · next different => exact expected (isFault fun same => different (decide_eq_true same))

/-- A name that is required is passed and given, or the reader fails. -/
theorem requireName
    (goesOn : ∀ name, terminal = .name name → rest ≠ [])
    (isFault : (∀ name, terminal ≠ .name name) → ∀ fault, fails fault) :
    Gives (Reading.requireName what) (terminal :: rest)
      (fun after pair => after = rest ∧ terminal = .name pair.2) fails := by
  refine bind current ?_
  rintro _ token ⟨rfl, same⟩
  split
  · next name isName =>
      have isTerminal := Terminal.eq_name_iff.mpr (same.symm.trans isName)
      subst isTerminal
      refine bind (advance nofun (goesOn name rfl)) ?_
      rintro _ _ ⟨rfl, -⟩
      exact pure ⟨rfl, rfl⟩
  · next noName =>
      refine expected (isFault fun name isTerminal => noName name ?_)
      exact same.trans (Terminal.eq_name_iff.mp isTerminal)

/-- A bracket is closed by its own closing mark only. -/
theorem closeBracket
    {opening : Token} {closer : Mark}
    (noOpening : closer ≠ .openBracket)
    (inside : closer ≠ .endOfInput)
    (goesOn : terminal = .mark closer → rest ≠ [])
    (isFault : terminal ≠ .mark closer → ∀ fault, fails fault) :
    Gives (Reading.closeBracket opening closer) (terminal :: rest)
      (fun after _ => after = rest ∧ terminal = .mark closer) fails := by
  refine bind current ?_
  rintro _ token ⟨rfl, same⟩
  split
  · next mark isMark =>
      split
      · next isCloser =>
          have isTerminal := (Terminal.eq_mark_iff noOpening).mpr
            (same.symm.trans (isMark.trans (congrArg Symbol.mark isCloser)))
          subst isTerminal
          refine (advance (fun same => inside (by cases same; rfl)) (goesOn rfl)).mono ?_
          rintro _ _ ⟨rfl, -⟩
          exact ⟨rfl, rfl⟩
      · next different =>
          have refused : terminal ≠ .mark closer := fun isTerminal => different <|
            Symbol.mark.inj <| isMark.symm.trans <| same.trans <|
              (Terminal.eq_mark_iff noOpening).mp isTerminal
          split
          · exact failAt (isFault refused _)
          · split
            · exact failAt (isFault refused _)
            · exact expected (isFault refused)
  · next noMark =>
      refine expected (isFault fun isTerminal => noMark closer ?_)
      exact same.trans ((Terminal.eq_mark_iff noOpening).mp isTerminal)

/-- The span so far is taken without passing anything. -/
theorem spanFrom {start : Token} :
    Gives (Reading.spanFrom start) before (fun after _ => after = before) fails :=
  fun _ shape => shape

theorem span
    {start : Token} {continuation : Span → Reading β}
    (second : ∀ span, Gives (continuation span) before accepts fails) :
    Gives (Reading.spanFrom start >>= continuation) before accepts fails :=
  bind spanFrom fun _ span stays => stays ▸ second span

/-- A name in front of a mark is found by its first two terminals. -/
theorem atNameBefore (noOpening : mark ≠ .openBracket) :
    Gives (Reading.atNameBefore mark) (terminal :: rest)
      (fun after found => after = terminal :: rest ∧
        (found = true ↔ (∃ name, terminal = .name name) ∧ rest.head? = some (.mark mark)))
      fails := by
  intro cursor shape
  refine ⟨shape, ?_⟩
  have same := cursor.symbol_eq shape
  show (cursor.current.symbol.kind == .identifier && cursor.following.isMark mark) = true ↔ _
  rw [Bool.and_eq_true_iff, beq_iff_eq]
  constructor
  · rintro ⟨isIdentifier, followed⟩
    cases isSymbol : cursor.current.symbol with
    | identifier name =>
      have isName := Terminal.eq_name_iff.mpr (same.symm.trans isSymbol)
      subst isName
      exact ⟨⟨name, rfl⟩, (Cursor.isMark_following_iff noOpening shape nofun).mp followed⟩
    | _ => rw [isSymbol] at isIdentifier; cases isIdentifier
  · rintro ⟨⟨name, rfl⟩, followed⟩
    exact ⟨same ▸ rfl, (Cursor.isMark_following_iff noOpening shape nofun).mpr followed⟩

/-- A key that is a lone name is found in front of a colon. -/
theorem keyName? :
    Gives Reading.keyName? (terminal :: rest)
      (fun after found => after = terminal :: rest ∧
        ∀ name, found = some name ↔
          terminal = .name name ∧ rest.head? = some (.mark .colon)) fails := by
  refine bind current ?_
  rintro _ token ⟨rfl, same⟩
  split
  · next name isName =>
      have isTerminal := Terminal.eq_name_iff.mpr (same.symm.trans isName)
      subst isTerminal
      refine bind (atNameBefore Mark.noConfusion) ?_
      rintro _ found ⟨rfl, decides⟩
      split
      · next isFound =>
          refine pure ⟨rfl, fun other => ?_⟩
          have followed := (decides.mp isFound).2
          simp [followed]
      · next notFound =>
          refine pure ⟨rfl, fun other => ?_⟩
          have notFollowed : ¬ rest.head? = some (.mark .colon) :=
            fun followed => notFound (decides.mpr ⟨⟨name, rfl⟩, followed⟩)
          simp [notFollowed]
  · next noName =>
      refine pure ⟨rfl, fun other => ?_⟩
      refine iff_of_false nofun fun ⟨isTerminal, _⟩ => noName other ?_
      exact same.trans (Terminal.eq_name_iff.mp isTerminal)

/-- Empty parentheses are found by their two terminals. -/
theorem atEmptyParens :
    Gives Reading.atEmptyParens (terminal :: rest)
      (fun after found => after = terminal :: rest ∧
        (found = true ↔
          terminal = .mark .openParen ∧ rest.head? = some (.mark .closeParen))) fails := by
  intro cursor shape
  refine ⟨shape, ?_⟩
  show (cursor.current.isMark .openParen && cursor.following.isMark .closeParen) = true ↔ _
  rw [Bool.and_eq_true_iff, Cursor.isMark_eq shape Mark.noConfusion, decide_eq_true_iff]
  refine and_congr_right fun isOpening => ?_
  subst isOpening
  exact Cursor.isMark_following_iff Mark.noConfusion shape nofun

end Gives

/-! ## Behind an operand

Whether a `[` is an index depends on the token that was passed last.  What an atom or a
closing bracket leaves stands behind an operand, and there the terminal tells. -/

/-- A reader stops behind the last token of an operand. -/
def StopsBehindOperand {α : Type} (reading : Reading α) : Prop :=
  ∀ cursor value next, reading cursor = .ok (value, next) → Ended next.terminals →
    next.passed.symbol.endsOperand = true

/-- A reader does not move. -/
def Stays {α : Type} (reading : Reading α) : Prop :=
  ∀ cursor value next, reading cursor = .ok (value, next) → next = cursor

section

variable {α β : Type} {reading : Reading α} {continuation : α → Reading β}

/-- Of two readers that succeed together each one succeeds. -/
theorem exists_of_bind
    {result : β}
    (run : (reading >>= continuation) cursor = .ok (result, next)) :
    ∃ value between, reading cursor = .ok (value, between) ∧
      continuation value between = .ok (result, next) := by
  have run : (reading cursor >>= fun pair => continuation pair.1 pair.2) = .ok (result, next) := run
  cases first : reading cursor with
  | error => rw [first] at run; cases run
  | ok pair =>
    rw [first] at run
    exact ⟨pair.1, pair.2, rfl, run⟩

theorem Stays.pure (value : α) : Stays (Pure.pure value : Reading α) := by
  rintro cursor _ _ ⟨⟩
  rfl

theorem Stays.spanFrom (start : Token) : Stays (Reading.spanFrom start) := by
  rintro cursor _ _ ⟨⟩
  rfl

/-- Readers that stay where they are stay there together. -/
theorem Stays.bind (first : Stays reading) (second : ∀ value, Stays (continuation value)) :
    Stays (reading >>= continuation) := by
  intro cursor result next run
  obtain ⟨value, between, firstRun, secondRun⟩ := exists_of_bind run
  rw [second value _ _ _ secondRun, first _ _ _ firstRun]

namespace StopsBehindOperand

/-- Where a reader stops is decided by its last part. -/
theorem bind (second : ∀ value, StopsBehindOperand (continuation value)) :
    StopsBehindOperand (reading >>= continuation) := by
  intro cursor result next run
  obtain ⟨value, between, -, secondRun⟩ := exists_of_bind run
  exact second value _ _ _ secondRun

/-- A part at the end that passes nothing does not change where a reader stops. -/
theorem bind_stays
    (first : StopsBehindOperand reading)
    (second : ∀ value, Stays (continuation value)) :
    StopsBehindOperand (reading >>= continuation) := by
  intro cursor result next run
  obtain ⟨value, between, firstRun, secondRun⟩ := exists_of_bind run
  obtain rfl := second value _ _ _ secondRun
  exact first _ _ _ firstRun

/-- A reader that fails stops nowhere. -/
theorem failAt (cause : SyntacticCause) (span : Span) :
    StopsBehindOperand (Reading.failAt cause span : Reading α) := by
  intro cursor value next run
  cases run

theorem expected (what : Text) : StopsBehindOperand (Reading.expected what : Reading α) := by
  refine bind fun token => ?_
  split
  · exact failAt _ _
  · exact failAt _ _

end StopsBehindOperand

/-- Passing a token that ends an operand stops behind one. -/
theorem endsOperand_of_advance
    {token : Token}
    (run : advance cursor = .ok (token, next))
    (operand : cursor.current.symbol.endsOperand = true)
    (ended : Ended next.terminals) :
    next.passed.symbol.endsOperand = true := by
  have moves : cursor.next = next := congrArg Prod.snd (Except.ok.inj run)
  subst moves
  have inside : Terminal.ofToken cursor.before cursor.current ≠ .mark .endOfInput := by
    intro atEnd
    have same := Terminal.ofToken_toSymbol cursor.before cursor.current
    rw [← same, atEnd] at operand
    cases operand
  have shape : cursor.terminals = _ :: _ := rfl
  cases rest : cursor.after with
  | nil =>
    -- A cursor on the last token does not move, and that token is not the end of input.
    have stays : cursor.next = cursor := by
      simp [Cursor.next, rest]
    rw [stays, shape, rest] at ended
    cases ended.tail inside
  | cons token' after =>
    obtain ⟨-, isBefore⟩ := Cursor.next_eq shape inside (by rw [rest]; exact nofun)
    rw [Cursor.passed, isBefore]
    exact operand

/-- A closing bracket ends an operand. -/
theorem StopsBehindOperand.closeBracket
    {closer : Mark}
    (closes : closer.closesBracket = true)
    (opening : Token) :
    StopsBehindOperand (Reading.closeBracket opening closer) := by
  intro cursor value next run
  obtain ⟨token, between, ⟨⟩, run⟩ := exists_of_bind run
  cases isSymbol : cursor.current.symbol with
  | mark mark =>
    by_cases isCloser : mark = closer
    · rw [isSymbol] at run
      simp only [isCloser, if_true] at run
      refine endsOperand_of_advance run ?_
      rw [isSymbol, isCloser]
      exact closes
    · rw [isSymbol] at run
      simp only [isCloser, if_false] at run
      by_cases atEnd : mark = .endOfInput
      · simp only [atEnd, if_true] at run
        cases run
      · simp only [atEnd, if_false] at run
        cases closesOther : mark.closesBracket with
        | true => rw [closesOther] at run; cases run
        | false => rw [closesOther] at run; exact expected _ _ _ _ run
  | _ => rw [isSymbol] at run; exact expected _ _ _ _ run

end

/-- What a reader gives in front of a word behind an operand. -/
def GivesBehind {α : Type} (reading : Reading α) (before : Word) (accepts : Word → α → Prop)
    (fails : Fault → Prop) : Prop :=
  ∀ cursor : Cursor, cursor.terminals = before → cursor.passed.symbol.endsOperand = true →
    match reading cursor with
    | .ok (value, next) => accepts next.terminals value
    | .error fault => fails fault

theorem GivesBehind.mono
    {α : Type} {reading : Reading α} {before : Word} {accepts weaker : Word → α → Prop}
    (gives : GivesBehind reading before accepts fails)
    (weaken : ∀ after value, accepts after value → weaker after value) :
    GivesBehind reading before weaker fails := by
  intro cursor shape behind
  have ran := gives cursor shape behind
  cases result : reading cursor with
  | error => rwa [result] at ran
  | ok =>
    rw [result] at ran
    exact weaken _ _ ran

/-- Behind a reader that stops behind an operand, a `[` is an index. -/
theorem Gives.bind_behind
    {α β : Type} {reading : Reading α} {continuation : α → Reading β} {before : Word}
    {middle : Word → α → Prop} {accepts : Word → β → Prop}
    (first : Gives reading before middle fails)
    (stops : StopsBehindOperand reading)
    (ended : ∀ after value, middle after value → Ended after)
    (second : ∀ after value, middle after value →
      GivesBehind (continuation value) after accepts fails) :
    Gives (reading >>= continuation) before accepts fails := by
  intro cursor shape
  have ran := first cursor shape
  show match reading cursor >>= fun pair => continuation pair.1 pair.2 with
    | .ok (value, next) => accepts next.terminals value
    | .error fault => fails fault
  cases result : reading cursor with
  | error => rwa [result] at ran
  | ok pair =>
    rw [result] at ran
    exact second _ _ ran pair.2 rfl (stops _ _ _ result (ended _ _ ran))

section

variable (steps : Nat) (nested : Phrase → Reading Expr)

/-- Every atom stops behind an operand, since a bracket closes it or it is a token of its own. -/
theorem grouped_stops : StopsBehindOperand (grouped nested) := by
  refine .bind fun start => .bind fun token => ?_
  split
  · exact .failAt _ _
  · exact .bind fun expr => .bind_stays (.closeBracket rfl start) fun _ => .pure expr

theorem array_stops : StopsBehindOperand (array steps nested) := by
  refine .bind fun start => .bind fun elements => .bind_stays (.closeBracket rfl start) ?_
  exact fun _ => .bind (.spanFrom start) fun _ => .pure _

/-- A map is closed by its brace, whatever its entries are. -/
theorem mapAfter_stops (start : Token) (first : Entry) :
    StopsBehindOperand (mapAfter steps nested start first) := by
  refine .bind fun entries => .bind_stays (.closeBracket rfl start) ?_
  exact fun _ => .bind (.spanFrom start) fun _ => .pure _

theorem braces_stops : StopsBehindOperand (braces steps nested) := by
  refine .bind fun start => .bind fun token => ?_
  split
  · exact .failAt _ _
  · refine .bind fun key? => ?_
    cases key? with
    | some name => exact .bind fun entry => mapAfter_stops steps nested start entry
    | none =>
      refine .bind fun first => .bind fun isKey => ?_
      split
      · exact .bind fun entry => mapAfter_stops steps nested start entry
      · refine .bind fun members => .bind_stays (.closeBracket rfl start) ?_
        exact fun _ => .bind (.spanFrom start) fun _ => .pure _

/-- A literal or a name is an operand of its own. -/
theorem leaf_stops
    {expr value : Expr}
    (operand : cursor.current.symbol.endsOperand = true)
    (run : (do let _ ← advance; return expr : Reading Expr) cursor = .ok (value, next))
    (ended : Ended next.terminals) :
    next.passed.symbol.endsOperand = true := by
  obtain ⟨token, between, advances, ⟨⟩⟩ := exists_of_bind run
  exact endsOperand_of_advance advances operand ended

theorem atom_stops : StopsBehindOperand (atom steps nested) := by
  intro cursor value next run
  obtain ⟨token, between, ⟨⟩, run⟩ := exists_of_bind run
  have refused (mark : Mark) : StopsBehindOperand
      (if mark.closesBracket then
        failAt (.neverOpened cursor.current.lexeme) cursor.current.span
      else Reading.expected "expression" : Reading Expr) := by
    split
    · exact .failAt _ _
    · exact .expected _
  cases isSymbol : cursor.current.symbol with
  | mark mark =>
    rw [isSymbol] at run
    cases mark with
    | openParen => exact grouped_stops nested _ _ _ run
    | openBracket => exact array_stops steps nested _ _ _ run
    | openBrace => exact braces_stops steps nested _ _ _ run
    | _ => exact refused _ _ _ _ run
  | _ =>
    rw [isSymbol] at run
    exact leaf_stops (by rw [isSymbol]; rfl) run

end

end Reading

/-- Behind an operand the terminal tells whether a `[` is an index. -/
theorem Cursor.atIndex_eq
    (shape : cursor.terminals = terminal :: rest)
    (behind : cursor.passed.symbol.endsOperand = true) :
    (cursor.current.isMark .openBracket &&
      cursor.passed.span.stop.offset == cursor.current.span.start.offset) =
    decide (terminal = .indexBracket) := by
  obtain ⟨rfl, -⟩ := List.cons.inj shape
  unfold Terminal.ofToken
  cases isOpening : cursor.current.isMark .openBracket with
  | false => simp
  | true =>
    cases isBefore : cursor.before with
    | none =>
      have isCurrent : cursor.passed = cursor.current := by
        rw [passed, isBefore]
        rfl
      rw [isCurrent, of_decide_eq_true isOpening] at behind
      cases behind
    | some last =>
      have isLast : cursor.passed = last := by
        rw [passed, isBefore]
        rfl
      rw [isLast] at behind ⊢
      by_cases adjacent : last.span.stop.offset = cursor.current.span.start.offset <;>
        simp [behind, adjacent]

/-- One round of reading indices. -/
theorem Reading.indicesFrom_gives
    {nested : Phrase → Reading Expr} {rounds : Nat} {target : Expr}
    {accepts : Word → Expr → Prop}
    (stops : terminal ≠ .indexBracket → accepts (terminal :: rest) target)
    (goesOn : terminal = .indexBracket →
      Gives (do
        let start ← advance
        if ← atMark .closeBracket then expected "index expression"
        else
          let key ← nested .expression
          let stop ← closeBracket start .closeBracket
          indicesFrom nested rounds (.index (target.span.through stop.span) target key))
        (terminal :: rest) accepts fails) :
    GivesBehind (indicesFrom nested (rounds + 1) target) (terminal :: rest) accepts fails := by
  intro cursor shape behind
  have tests : ∀ more : Reading Expr,
      (do
        let cursor ← get
        if cursor.current.isMark .openBracket &&
            cursor.passed.span.stop.offset == cursor.current.span.start.offset then more
        else return target : Reading Expr) cursor =
      (if decide (terminal = .indexBracket) then more else pure target) cursor := by
    intro more
    rw [← Cursor.atIndex_eq shape behind]
    rfl
  rw [indicesFrom, tests]
  by_cases isIndex : terminal = .indexBracket
  · rw [if_pos (decide_eq_true isIndex)]
    exact goesOn isIndex cursor shape
  · rw [if_neg (by simpa using isIndex)]
    rw [← shape] at stops
    exact stops isIndex

end Offside
