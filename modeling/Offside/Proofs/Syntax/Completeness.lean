import Offside.Proofs.Syntax.Soundness

namespace Offside

/-!
# Readers accept what the grammar derives

In front of a word of the grammar, a reader passes exactly that word and gives its tree,
whatever follows that does not prolong it.  The only way to fail is to run out of nesting
room.
-/

open Grammar
variable {mark : Mark}

/-- A word that ends an operand with operators of at least a precedence: it starts with
neither an argument, an index nor such an operator. -/
structure Delimits (level : Nat) (word : Word) : Prop where
  nonempty : word ≠ []
  noAtom : ∀ terminal ∈ word.head?, terminal.toSymbol.startsAtom = false
  looser : BindsLooser level word

namespace Delimits

variable {level : Nat} {word rest : Word}

/-- A mark that opens no bracket and is no operator ends every operand. -/
theorem of_mark
    (noOpening : mark.opensBracket = false)
    (noOperator : (TokenKind.mark mark).precedence? = none) :
    Delimits level (.mark mark :: rest) := by
  refine ⟨nofun, ?_, ?_⟩
  · rintro _ ⟨⟩
    exact noOpening
  · rintro _ ⟨⟩ precedence found
    cases noOperator.symm.trans found

/-- What ends an operand starts with no index. -/
theorem loose (stops : Delimits level word) : Loose word := by
  intro isIndex
  cases stops.noAtom _ isIndex

/-- What ends an operand ends one with tighter operators. -/
theorem mono {higher : Nat} (stops : Delimits level word) (below : level ≤ higher) :
    Delimits higher word :=
  ⟨stops.nonempty, stops.noAtom,
    fun terminal first precedence found =>
      Nat.lt_of_lt_of_le (stops.looser terminal first precedence found) below⟩

end Delimits

/-- How tight the operators in a phrase have to bind. -/
def Phrase.level : Phrase → Nat
  | .body | .expression => 0
  | .operand least => least

namespace Reading

variable {fails : Fault → Prop}

/-- Distinct names are read up to the mark behind them. -/
theorem parametersFrom_gives
    {terminator : Mark}
    (noOpening : terminator ≠ .openBracket)
    {steps : Nat} {names parameters : List Text} {rest : Word}
    (place : Place steps (parameters.map .name ++ .mark terminator :: rest))
    (distinct : (names ++ parameters).Nodup) :
    Gives (parametersFrom terminator steps names)
      (parameters.map .name ++ .mark terminator :: rest)
      (fun after value => after = .mark terminator :: rest ∧ value = names ++ parameters)
      fails := by
  induction parameters generalizing steps names with
  | nil =>
    cases steps with
    | zero => exact absurd place.short (by simp)
    | succ steps =>
      refine .go .current fun token same => ?_
      rw [show token.symbol = .mark terminator from same]
      refine .look (.atMark_of_eq noOpening) ?_
      exact .pure ⟨rfl, by simp⟩
  | cons name parameters hypothesis =>
    cases steps with
    | zero => exact absurd place.short (by simp)
    | succ steps =>
      have restPlace : Place steps (parameters.map .name ++ .mark terminator :: rest) :=
        ⟨place.ended.tail nofun, Nat.le_of_succ_le_succ place.short⟩
      refine .go .current fun token same => ?_
      rw [show token.symbol = .identifier name from same]
      refine .go (.advance nofun restPlace.ended.ne_nil) fun _ _ => ?_
      have isNew : names.contains name = false := by
        have apart := (List.nodup_append.mp distinct).2.2
        simp only [List.contains_eq_mem, decide_eq_false_iff_not]
        exact fun member => apart name member name (by simp) rfl
      rw [isNew]
      refine (hypothesis restPlace (by simpa using distinct)).mono ?_
      rintro _ _ ⟨rfl, rfl⟩
      exact ⟨rfl, by simp⟩

section

variable {start : Token} {bindings stmts : List Stmt} {rounds least : Nat} {name : Text}
  {body expr : Expr} {others elements : List Expr} {word rest : Word}

/-- A reader of phrases passes every phrase that what follows does not prolong; the phrases
start as expressions do. -/
structure Complete (inner : Phrase → Word → Expr → Prop) (steps : Nat)
    (nested : Phrase → Reading Expr) (fails : Fault → Prop) : Prop where
  gives : ∀ {form word expr rest}, inner form word expr → Delimits form.level rest →
    Place steps (word ++ rest) →
    Gives (nested form) (word ++ rest) (fun after value => after = rest ∧ value.bare = expr) fails
  starts : ∀ {word expr}, inner .expression word expr → Starts Terminal.opensExpr word
  prolongs : ∀ {name word expr}, inner .expression (.name name :: word) expr → Prolongs word

variable {inner : Phrase → Word → Expr → Prop} {steps : Nat} {nested : Phrase → Reading Expr}
  (complete : Complete inner steps nested fails)
include complete

/-- A binding is read up to what ends its body. -/
theorem bindingFrom_gives
    (derived : Binding inner word bindings)
    (stops : Delimits 0 rest)
    (place : Place steps (word ++ rest)) :
    Gives (bindingFrom steps nested start) (word ++ rest)
      (fun after stmt => after = rest ∧ [stmt.bare] = bindings) fails := by
  cases derived with
  | @intro name parameters word body distinct derived =>
    simp only [List.cons_append, List.append_assoc] at place ⊢
    have restPlace := place.tail nofun
    refine .bind (.requireName (fun _ _ => restPlace.ended.ne_nil)
      fun noName => (noName name rfl).elim) ?_
    rintro _ ⟨nameToken, name⟩ ⟨rfl, ⟨⟩⟩
    refine .bind (parametersFrom_gives Mark.noConfusion restPlace distinct) ?_
    rintro _ _ ⟨rfl, rfl⟩
    have bodyPlace := (restPlace.after nofun).tail nofun
    refine .go (.requireMark Mark.noConfusion Mark.noConfusion
      (fun _ => bodyPlace.ended.ne_nil) fun other => (other rfl).elim) fun _ _ => ?_
    refine .bind (complete.gives derived stops bodyPlace) ?_
    rintro _ value ⟨rfl, rfl⟩
    refine .span fun _ => ?_
    refine .pure ⟨rfl, ?_⟩
    show [Stmt.binding .nowhere false name (Expr.bare _)] = _
    rw [bare_bindingValue]

omit complete in
/-- Behind an item stands a separator or the mark that ends all items. -/
theorem delimits_of_rest
    {α : Type} {separator : Mark} {trailing : Bool} {item : Word → List α → Prop} {items : List α}
    (further : Rest separator trailing item word items)
    (closer : Mark)
    (ends : ∀ mark ∈ [separator, closer],
      mark.opensBracket = false ∧ (TokenKind.mark mark).precedence? = none)
    (rest : Word) :
    Delimits 0 (word ++ .mark closer :: rest) := by
  have delimits {mark : Mark} {rest : Word} (member : mark ∈ [separator, closer]) :
      Delimits 0 (.mark mark :: rest) :=
    .of_mark (ends mark member).1 (ends mark member).2
  cases further with
  | done => exact delimits (by simp)
  | trailing
  | more => exact delimits (by simp)

/-- The bindings of a group are read up to the end of their block. -/
theorem bindingsFrom_gives
    {others : List Stmt}
    (derived : Rest .itemSeparator false (Binding inner) word others)
    (place : Place steps (word ++ .mark .blockEnd :: rest))
    (short : (word ++ .mark .blockEnd :: rest).length ≤ rounds) :
    Gives (bindingsFrom steps nested rounds bindings) (word ++ .mark .blockEnd :: rest)
      (fun after all => after = .mark .blockEnd :: rest ∧
        Stmt.bareAll all = Stmt.bareAll bindings ++ others) fails := by
  induction rounds generalizing word bindings others with
  | zero => exact absurd short (by simp)
  | succ rounds hypothesis =>
    cases derived with
    | done =>
      refine .look (.passMark_of_ne Mark.noConfusion nofun) ?_
      exact .pure ⟨rfl, by simp⟩
    | trailing isTrailing => cases isTrailing
    | @more word others _ _ derived further =>
      simp only [List.cons_append, List.append_assoc] at place short ⊢
      have restPlace := place.tail nofun
      have afterPlace := restPlace.after (by simp)
      have stops := delimits_of_rest further .blockEnd (by decide) rest
      refine .pass Mark.noConfusion Mark.noConfusion restPlace.ended.ne_nil fun _ => ?_
      obtain ⟨terminal, tail, shape⟩ := restPlace.exists_cons
      rw [shape]
      refine .go .current fun start _ => ?_
      rw [← shape]
      refine .bind (bindingFrom_gives complete derived stops restPlace) ?_
      rintro _ binding ⟨rfl, rfl⟩
      refine (hypothesis further afterPlace (length_le_of_cons_append short)).mono ?_
      rintro _ _ ⟨rfl, same⟩
      exact ⟨rfl, by simp [same, Stmt.bareAll]⟩

/-- Where no block starts behind `let`, one binding is read. -/
theorem letStatement_gives_one
    (derived : Binding inner word bindings)
    (stops : Delimits 0 rest)
    (place : Place steps (.mark .letWord :: (word ++ rest))) :
    Gives (letStatement steps nested) (.mark .letWord :: (word ++ rest))
      (fun after all => after = rest ∧ Stmt.bareAll all = bindings) fails := by
  have restPlace := place.tail nofun
  refine .go (.advance nofun restPlace.ended.ne_nil) fun start _ => ?_
  have noBlock : Gives (passMark .blockStart) (word ++ rest)
      (fun after found => after = word ++ rest ∧ found = false) fails := by
    cases derived with
    | intro => exact .passMark_of_ne Mark.noConfusion nofun
  refine .look noBlock ?_
  refine .bind (bindingFrom_gives complete derived stops restPlace) ?_
  rintro _ binding ⟨rfl, rfl⟩
  exact .pure ⟨rfl, rfl⟩

/-- Where a block starts behind `let`, all its bindings are read. -/
theorem letStatement_gives_group
    (derived : Series .itemSeparator false (Binding inner) word bindings)
    (place : Place steps
      (.mark .letWord :: .mark .blockStart :: (word ++ .mark .blockEnd :: rest)))
    (nonempty : rest ≠ []) :
    Gives (letStatement steps nested)
      (.mark .letWord :: .mark .blockStart :: (word ++ .mark .blockEnd :: rest))
      (fun after all => after = rest ∧ Stmt.bareAll all = bindings) fails := by
  cases derived with
  | @intro word others _ _ derived further =>
    rw [List.append_assoc] at place ⊢
    have groupPlace := (place.tail nofun).tail nofun
    have afterPlace := groupPlace.after (by simp)
    refine .go (.advance nofun nofun) fun start _ => ?_
    refine .pass Mark.noConfusion Mark.noConfusion groupPlace.ended.ne_nil fun _ => ?_
    obtain ⟨terminal, tail, shape⟩ := groupPlace.exists_cons
    rw [shape]
    refine .go .current fun _ _ => ?_
    rw [← shape]
    have stops := delimits_of_rest further .blockEnd (by decide) rest
    refine .bind (bindingFrom_gives complete derived stops groupPlace) ?_
    rintro _ first ⟨rfl, rfl⟩
    refine .go (bindingsFrom_gives complete further afterPlace afterPlace.short) fun all same => ?_
    refine .go (.requireMark Mark.noConfusion Mark.noConfusion (fun _ => nonempty)
      fun other => (other rfl).elim) fun _ _ => ?_
    exact .pure ⟨rfl, same⟩

/-- A mutable binding is read with its body. -/
theorem varStatement_gives
    (derived : inner .body word body)
    (stops : Delimits 0 rest)
    (place : Place steps (.mark .varWord :: .name name :: .mark .assign :: (word ++ rest))) :
    Gives (varStatement nested) (.mark .varWord :: .name name :: .mark .assign :: (word ++ rest))
      (fun after stmt => after = rest ∧ stmt.bare = .binding .nowhere true name body) fails := by
  have bodyPlace := ((place.tail nofun).tail nofun).tail nofun
  refine .go (.advance nofun nofun) fun start _ => ?_
  refine .bind (.requireName (fun _ _ => nofun) fun noName => (noName name rfl).elim) ?_
  rintro _ ⟨_, name⟩ ⟨rfl, ⟨⟩⟩
  refine .bind (.requireMark Mark.noConfusion Mark.noConfusion
    (fun _ => bodyPlace.ended.ne_nil) fun other => (other rfl).elim) ?_
  rintro _ _ ⟨rfl, -⟩
  refine .bind (complete.gives derived stops bodyPlace) ?_
  rintro _ value ⟨rfl, rfl⟩
  refine .span fun _ => ?_
  exact .pure ⟨rfl, rfl⟩

theorem assignment_gives
    (derived : inner .body word body)
    (stops : Delimits 0 rest)
    (place : Place steps (.name name :: .mark .assign :: (word ++ rest))) :
    Gives (assignment nested name) (.name name :: .mark .assign :: (word ++ rest))
      (fun after stmt => after = rest ∧ stmt.bare = .assignment .nowhere name body) fails := by
  have bodyPlace := (place.tail nofun).tail nofun
  refine .go (.advance nofun nofun) fun start _ => ?_
  refine .go (.advance nofun bodyPlace.ended.ne_nil) fun _ _ => ?_
  refine .bind (complete.gives derived stops bodyPlace) ?_
  rintro _ value ⟨rfl, rfl⟩
  refine .span fun _ => ?_
  exact .pure ⟨rfl, rfl⟩

/-- A function reaches as far as its body. -/
theorem function_gives
    {parameters : List Text}
    (distinct : parameters.Nodup)
    (derived : inner .body word body)
    (stops : Delimits 0 rest)
    (place : Place steps
      (.mark .funWord :: (parameters.map .name ++ .mark .arrow :: (word ++ rest)))) :
    Gives (function steps nested)
      (.mark .funWord :: (parameters.map .name ++ .mark .arrow :: (word ++ rest)))
      (fun after expr => after = rest ∧ expr.bare = .function .nowhere parameters body) fails := by
  have restPlace := place.tail nofun
  have bodyPlace := (restPlace.after nofun).tail nofun
  refine .go (.advance nofun restPlace.ended.ne_nil) fun start _ => ?_
  refine .look (parametersFrom_gives Mark.noConfusion restPlace distinct) ?_
  refine .go (.advance nofun bodyPlace.ended.ne_nil) fun _ _ => ?_
  refine .bind (complete.gives derived stops bodyPlace) ?_
  rintro _ value ⟨rfl, rfl⟩
  refine .span fun _ => ?_
  exact .pure ⟨rfl, rfl⟩

/-! ## Atoms -/

omit complete in
/-- What starts an expression is no other mark. -/
theorem ne_mark_of_opensExpr
    {terminal : Terminal}
    (opens : terminal.opensExpr = true)
    (other : (Terminal.mark mark).opensExpr = false) :
    terminal ≠ .mark mark := by
  rintro rfl
  cases opens.symm.trans other

omit complete in
/-- In front of an expression, a mark that starts none is not found. -/
theorem noMark_gives
    (starts : Starts Terminal.opensExpr word)
    (noOpening : mark ≠ .openBracket)
    (other : (Terminal.mark mark).opensExpr = false) :
    Gives (atMark mark) (word ++ rest)
      (fun after found => after = word ++ rest ∧ found = false) fails := by
  obtain ⟨terminal, tail, rfl, opens⟩ := starts
  exact .atMark_of_ne noOpening (ne_mark_of_opensExpr opens other)

omit complete in
/-- The token at the start of an expression is no other mark. -/
theorem current_gives (starts : Starts Terminal.opensExpr word) :
    Gives current (word ++ rest)
      (fun after token => after = word ++ rest ∧ ∀ mark, mark ≠ .openBracket →
        (Terminal.mark mark).opensExpr = false → token.isMark mark = false) fails := by
  obtain ⟨terminal, tail, rfl, opens⟩ := starts
  refine Gives.current.mono ?_
  rintro _ token ⟨rfl, same⟩
  refine ⟨rfl, fun mark noOpening other => decide_eq_false fun isMark => ?_⟩
  refine ne_mark_of_opensExpr opens other ?_
  exact (Terminal.eq_mark_iff noOpening).mpr (same.symm.trans isMark)

/-- What stands in parentheses is read up to the closing one. -/
theorem grouped_gives
    (derived : inner .expression word expr)
    (place : Place steps (.mark .openParen :: (word ++ .mark .closeParen :: rest)))
    (nonempty : rest ≠ []) :
    Gives (grouped nested) (.mark .openParen :: (word ++ .mark .closeParen :: rest))
      (fun after value => after = rest ∧ value.bare = expr) fails := by
  have restPlace := place.tail nofun
  refine .go (.advance nofun restPlace.ended.ne_nil) fun start _ => ?_
  refine .go (current_gives (complete.starts derived)) fun token noMark => ?_
  rw [noMark .closeParen Mark.noConfusion rfl, if_neg Bool.false_ne_true]
  refine .bind (complete.gives derived (.of_mark rfl rfl) restPlace) ?_
  rintro _ value ⟨rfl, rfl⟩
  refine .go (.closeBracket Mark.noConfusion Mark.noConfusion (fun _ => nonempty)
    fun other => (other rfl).elim) fun _ _ => ?_
  exact .pure ⟨rfl, rfl⟩

/-- Elements are read up to the closing bracket, also behind a last comma. -/
theorem elementsFrom_gives
    {more : List Expr}
    (derived : Series .comma true (Element inner) word more)
    (place : Place steps (word ++ .mark .closeBracket :: rest))
    (short : (word ++ .mark .closeBracket :: rest).length ≤ rounds) :
    Gives (elementsFrom nested rounds elements) (word ++ .mark .closeBracket :: rest)
      (fun after all => after = .mark .closeBracket :: rest ∧
        Expr.bareAll all = Expr.bareAll elements ++ more) fails := by
  induction rounds generalizing word elements more with
  | zero => exact absurd short (by simp)
  | succ rounds hypothesis =>
    cases derived with
    | @intro word others _ _ derived further =>
      cases derived with
      | intro derived =>
        rw [List.append_assoc] at place short ⊢
        have stops := delimits_of_rest further .closeBracket (by decide) rest
        have afterPlace := place.after (by simp)
        refine .look (noMark_gives (complete.starts derived) Mark.noConfusion rfl) ?_
        rw [if_neg Bool.false_ne_true]
        refine .bind (complete.gives derived stops place) ?_
        rintro _ element ⟨rfl, rfl⟩
        have shorter : (others ++ .mark .closeBracket :: rest).length ≤ rounds := by
          obtain ⟨first, tail, rfl, -⟩ := complete.starts derived
          simp only [List.length_cons, List.length_append] at short ⊢
          omega
        cases further with
        | done =>
          refine .look (.passMark_of_ne Mark.noConfusion (by decide)) ?_
          exact .pure ⟨rfl, by simp [Expr.bareAll]⟩
        | trailing =>
          have restPlace := afterPlace.tail (by decide)
          refine .pass Mark.noConfusion Mark.noConfusion (List.cons_ne_nil _ _) fun _ => ?_
          cases rounds with
          | zero => exact absurd shorter (by simp)
          | succ rounds =>
            refine .look (.atMark_of_eq Mark.noConfusion) ?_
            exact .pure ⟨rfl, by simp [Expr.bareAll]⟩
        | @more word others _ _ derived further =>
          have restPlace := afterPlace.tail (by decide)
          refine .pass Mark.noConfusion Mark.noConfusion restPlace.ended.ne_nil fun _ => ?_
          refine (hypothesis (.intro derived further) restPlace
            (Nat.le_of_succ_le shorter)).mono ?_
          rintro _ _ ⟨rfl, same⟩
          exact ⟨rfl, by simp [same, Expr.bareAll]⟩

/-- An array is read whether or not it is empty. -/
theorem array_gives
    (derived : word = [] ∧ elements = [] ∨ Series .comma true (Element inner) word elements)
    (place : Place steps (.mark .openBracket :: (word ++ .mark .closeBracket :: rest)))
    (nonempty : rest ≠ []) :
    Gives (array steps nested) (.mark .openBracket :: (word ++ .mark .closeBracket :: rest))
      (fun after expr => after = rest ∧ expr.bare = .array .nowhere elements) fails := by
  have restPlace := place.tail nofun
  refine .go (.advance nofun restPlace.ended.ne_nil) fun start _ => ?_
  have takesElements : Gives (elementsFrom nested steps []) (word ++ .mark .closeBracket :: rest)
      (fun after all => after = .mark .closeBracket :: rest ∧ Expr.bareAll all = elements)
      fails := by
    rcases derived with ⟨rfl, rfl⟩ | series
    · cases steps with
      | zero => exact absurd restPlace.short (by simp)
      | succ steps =>
        refine .look (.atMark_of_eq Mark.noConfusion) ?_
        exact .pure ⟨rfl, rfl⟩
    · exact elementsFrom_gives complete series restPlace restPlace.short
  refine .bind takesElements ?_
  rintro _ all ⟨rfl, rfl⟩
  refine .go (.closeBracket Mark.noConfusion Mark.noConfusion (fun _ => nonempty)
    fun other => (other rfl).elim) fun _ _ => ?_
  refine .span fun _ => ?_
  exact .pure ⟨rfl, rfl⟩

/-- A lone name is read as a key. -/
theorem namedEntry_gives
    {value : Expr}
    (derived : inner .expression word value)
    (stops : Delimits 0 rest)
    (place : Place steps (.name name :: .mark .colon :: (word ++ rest))) :
    Gives (namedEntry nested name) (.name name :: .mark .colon :: (word ++ rest))
      (fun after entry => after = rest ∧
        entry.bare = .pair .nowhere (.string .nowhere name) value) fails := by
  have valuePlace := (place.tail nofun).tail nofun
  refine .go (.advance nofun nofun) fun start _ => ?_
  refine .go (.requireMark Mark.noConfusion Mark.noConfusion
    (fun _ => valuePlace.ended.ne_nil) fun other => (other rfl).elim) fun _ _ => ?_
  refine .bind (complete.gives derived stops valuePlace) ?_
  rintro _ value ⟨rfl, rfl⟩
  refine .span fun _ => ?_
  exact .pure ⟨rfl, rfl⟩

/-- Behind a key that was read, the value is read. -/
theorem entryAfter_gives
    {key : Expr} {value : Expr}
    (derived : inner .expression word value)
    (stops : Delimits 0 rest)
    (place : Place steps (.mark .colon :: (word ++ rest))) :
    Gives (entryAfter nested start key) (.mark .colon :: (word ++ rest))
      (fun after entry => after = rest ∧ entry.bare = .pair .nowhere key.bare value) fails := by
  have valuePlace := place.tail nofun
  refine .go (.advance nofun valuePlace.ended.ne_nil) fun _ _ => ?_
  refine .bind (complete.gives derived stops valuePlace) ?_
  rintro _ value ⟨rfl, rfl⟩
  refine .span fun _ => ?_
  exact .pure ⟨rfl, rfl⟩

/-- An expression is not taken for a name that is a key, unless it is that name. -/
theorem keyName?_gives_none
    (derived : inner .expression word expr)
    (noKey : (∃ name, word = [.name name]) → rest.head? ≠ some (.mark .colon)) :
    Gives keyName? (word ++ rest) (fun after found => after = word ++ rest ∧ found = none)
      fails := by
  obtain ⟨terminal, tail, rfl, -⟩ := complete.starts derived
  refine Gives.keyName?.mono ?_
  rintro _ found ⟨rfl, isKey⟩
  refine ⟨rfl, ?_⟩
  cases found with
  | none => rfl
  | some name =>
    obtain ⟨rfl, followed⟩ := (isKey name).mp rfl
    cases tail with
    | nil => exact (noKey ⟨name, rfl⟩ followed).elim
    | cons second tail =>
      have prolongs := complete.prolongs derived second rfl
      rw [Option.some.inj followed] at prolongs
      cases prolongs

omit complete in
theorem keyName?_gives_some {rest : Word} :
    Gives keyName? (.name name :: .mark .colon :: rest)
      (fun after found => after = .name name :: .mark .colon :: rest ∧ found = some name)
      fails :=
  Gives.keyName?.mono fun _ _ ⟨stays, isKey⟩ => ⟨stays, (isKey name).mpr ⟨rfl, rfl⟩⟩

/-- Further entries are read up to the closing brace. -/
theorem entriesFrom_gives
    {entries others : List Entry}
    (derived : Rest .comma true (MapEntry inner) word others)
    (place : Place steps (word ++ .mark .closeBrace :: rest))
    (short : (word ++ .mark .closeBrace :: rest).length ≤ rounds) :
    Gives (entriesFrom nested rounds entries) (word ++ .mark .closeBrace :: rest)
      (fun after all => after = .mark .closeBrace :: rest ∧
        Entry.bareAll all = Entry.bareAll entries ++ others) fails := by
  induction rounds generalizing word entries others with
  | zero => exact absurd short (by simp)
  | succ rounds hypothesis =>
    cases derived with
    | done =>
      refine .look (.passMark_of_ne Mark.noConfusion (by decide)) ?_
      exact .pure ⟨rfl, by simp⟩
    | trailing =>
      refine .pass Mark.noConfusion Mark.noConfusion (List.cons_ne_nil _ _) fun _ => ?_
      refine .look (.atMark_of_eq Mark.noConfusion) ?_
      exact .pure ⟨rfl, by simp⟩
    | @more word others _ _ derived further =>
      simp only [List.cons_append, List.append_assoc] at place short ⊢
      have restPlace := place.tail (by decide)
      have afterPlace := restPlace.after (by simp)
      have stops := delimits_of_rest further .closeBrace (by decide) rest
      refine .pass Mark.noConfusion Mark.noConfusion restPlace.ended.ne_nil fun _ => ?_
      cases derived with
      | @named name word value derived =>
        refine .look (.atMark_of_ne Mark.noConfusion (by simp)) ?_
        refine .look keyName?_gives_some ?_
        refine .go (namedEntry_gives complete derived stops restPlace) fun entry same => ?_
        refine (hypothesis further afterPlace (length_le_of_cons_append short)).mono ?_
        rintro _ _ ⟨rfl, sameRest⟩
        exact ⟨rfl, by simp [same, sameRest, Entry.bareAll]⟩
      | @keyed keyWord word key value noName keyDerived derived =>
        rw [List.append_assoc, List.cons_append] at restPlace ⊢
        have colonPlace := restPlace.after (List.cons_ne_nil _ _)
        have starts := complete.starts keyDerived
        refine .look (noMark_gives starts Mark.noConfusion rfl) ?_
        refine .look (keyName?_gives_none complete keyDerived
          fun isName => (Exists.elim isName noName).elim) ?_
        refine .go (current_gives starts) fun start _ => ?_
        refine .bind (complete.gives keyDerived (.of_mark rfl rfl) restPlace) ?_
        rintro _ key ⟨rfl, rfl⟩
        refine .look (.atMark_of_eq Mark.noConfusion) ?_
        refine .go (entryAfter_gives complete derived stops colonPlace) fun entry same => ?_
        refine (hypothesis further afterPlace (length_le_of_cons_append short)).mono ?_
        rintro _ _ ⟨rfl, sameRest⟩
        exact ⟨rfl, by simp [same, sameRest, Entry.bareAll]⟩

omit complete in
/-- No colon stands behind an element of a set. -/
theorem head?_ne_colon_of_rest
    (further : Rest .comma true (Element inner) word others) :
    (word ++ .mark .closeBrace :: rest).head? ≠ some (.mark .colon) := by
  cases further with
  | done
  | trailing
  | more => exact nofun

omit complete in
/-- Behind the first element of a set stands no colon. -/
theorem noColon_gives (further : Rest .comma true (Element inner) word others) :
    Gives (atMark .colon) (word ++ .mark .closeBrace :: rest)
      (fun after found => after = word ++ .mark .closeBrace :: rest ∧ found = false) fails := by
  cases further with
  | done
  | trailing
  | more => exact .atMark_of_ne Mark.noConfusion nofun

/-- Further elements are read up to the closing brace. -/
theorem membersFrom_gives
    {members : List Expr}
    (derived : Rest .comma true (Element inner) word others)
    (place : Place steps (word ++ .mark .closeBrace :: rest))
    (short : (word ++ .mark .closeBrace :: rest).length ≤ rounds) :
    Gives (membersFrom nested rounds members) (word ++ .mark .closeBrace :: rest)
      (fun after all => after = .mark .closeBrace :: rest ∧
        Expr.bareAll all = Expr.bareAll members ++ others) fails := by
  induction rounds generalizing word members others with
  | zero => exact absurd short (by simp)
  | succ rounds hypothesis =>
    cases derived with
    | done =>
      refine .look (.passMark_of_ne Mark.noConfusion nofun) ?_
      exact .pure ⟨rfl, by simp⟩
    | trailing =>
      refine .pass Mark.noConfusion Mark.noConfusion nofun fun _ => ?_
      refine .look (.atMark_of_eq Mark.noConfusion) ?_
      exact .pure ⟨rfl, by simp⟩
    | @more word others _ _ derived further =>
      simp only [List.cons_append, List.append_assoc] at place short ⊢
      have restPlace := place.tail nofun
      have afterPlace := restPlace.after (by simp)
      have stops := delimits_of_rest further .closeBrace (by decide) rest
      refine .pass Mark.noConfusion Mark.noConfusion restPlace.ended.ne_nil fun _ => ?_
      cases derived with
      | intro derived =>
        have starts := complete.starts derived
        refine .look (noMark_gives starts Mark.noConfusion rfl) ?_
        refine .go (current_gives starts) fun start _ => ?_
        refine .bind (complete.gives derived stops restPlace) ?_
        rintro _ member ⟨rfl, rfl⟩
        refine .look (noColon_gives further) ?_
        refine (hypothesis further afterPlace (length_le_of_cons_append short)).mono ?_
        rintro _ _ ⟨rfl, same⟩
        exact ⟨rfl, by simp [same, Expr.bareAll]⟩

theorem mapAfter_gives
    {first : Entry} {others : List Entry}
    (derived : Rest .comma true (MapEntry inner) word others)
    (place : Place steps (word ++ .mark .closeBrace :: rest))
    (nonempty : rest ≠ []) :
    Gives (mapAfter steps nested start first) (word ++ .mark .closeBrace :: rest)
      (fun after expr => after = rest ∧ expr.bare = .map .nowhere (first.bare :: others))
      fails := by
  refine .go (entriesFrom_gives complete derived place place.short) fun entries same => ?_
  refine .go (.closeBracket Mark.noConfusion Mark.noConfusion (fun _ => nonempty)
    fun other => (other rfl).elim) fun _ _ => ?_
  refine .span fun _ => ?_
  exact .pure ⟨rfl, congrArg (Expr.map .nowhere) same⟩

/-- Braces with entries are read as a map, whether the first key is a lone name or not. -/
theorem braces_gives_map
    {entries : List Entry}
    (derived : Series .comma true (MapEntry inner) word entries)
    (place : Place steps (.mark .openBrace :: (word ++ .mark .closeBrace :: rest)))
    (nonempty : rest ≠ []) :
    Gives (braces steps nested) (.mark .openBrace :: (word ++ .mark .closeBrace :: rest))
      (fun after expr => after = rest ∧ expr.bare = .map .nowhere entries) fails := by
  cases derived with
  | @intro word others _ _ derived further =>
    rw [List.append_assoc] at place ⊢
    have restPlace := place.tail nofun
    have afterPlace := restPlace.after (by simp)
    have stops := delimits_of_rest further .closeBrace (by decide) rest
    refine .go (.advance nofun restPlace.ended.ne_nil) fun start _ => ?_
    cases derived with
    | @named name word value derived =>
      refine .go .current fun token same => ?_
      rw [show token.isMark .closeBrace = false by rw [Token.isMark, same]; rfl,
        if_neg Bool.false_ne_true]
      refine .look keyName?_gives_some ?_
      refine .go (namedEntry_gives complete derived stops restPlace) fun entry same => ?_
      rw [← same]
      exact mapAfter_gives complete further afterPlace nonempty
    | @keyed keyWord word key value noName keyDerived derived =>
      rw [List.append_assoc, List.cons_append] at restPlace ⊢
      have colonPlace := restPlace.after nofun
      refine .go (current_gives (complete.starts keyDerived)) fun token noMark => ?_
      rw [noMark .closeBrace Mark.noConfusion rfl, if_neg Bool.false_ne_true]
      refine .look (keyName?_gives_none complete keyDerived
        fun isName => (Exists.elim isName noName).elim) ?_
      refine .bind (complete.gives keyDerived (.of_mark rfl rfl) restPlace) ?_
      rintro _ key ⟨rfl, rfl⟩
      refine .look (.atMark_of_eq Mark.noConfusion) ?_
      refine .go (entryAfter_gives complete derived stops colonPlace) fun entry same => ?_
      rw [← same]
      exact mapAfter_gives complete further afterPlace nonempty

/-- Braces without a colon behind the first expression are read as a set. -/
theorem braces_gives_set
    (derived : Series .comma true (Element inner) word elements)
    (place : Place steps (.mark .openBrace :: (word ++ .mark .closeBrace :: rest)))
    (nonempty : rest ≠ []) :
    Gives (braces steps nested) (.mark .openBrace :: (word ++ .mark .closeBrace :: rest))
      (fun after expr => after = rest ∧ expr.bare = .set .nowhere elements) fails := by
  cases derived with
  | @intro word others _ _ derived further =>
    cases derived with
    | intro derived =>
      rw [List.append_assoc] at place ⊢
      have restPlace := place.tail nofun
      have afterPlace := restPlace.after (by simp)
      have stops := delimits_of_rest further .closeBrace (by decide) rest
      refine .go (.advance nofun restPlace.ended.ne_nil) fun start _ => ?_
      refine .go (current_gives (complete.starts derived)) fun token noMark => ?_
      rw [noMark .closeBrace Mark.noConfusion rfl, if_neg Bool.false_ne_true]
      refine .look (keyName?_gives_none complete derived
        fun _ => head?_ne_colon_of_rest further) ?_
      refine .bind (complete.gives derived stops restPlace) ?_
      rintro _ first ⟨rfl, rfl⟩
      refine .look (noColon_gives further) ?_
      refine .go (membersFrom_gives complete further afterPlace afterPlace.short)
        fun members same => ?_
      refine .go (.closeBracket Mark.noConfusion Mark.noConfusion (fun _ => nonempty)
        fun other => (other rfl).elim) fun _ _ => ?_
      refine .span fun _ => ?_
      exact .pure ⟨rfl, congrArg (Expr.set .nowhere) same⟩

/-- Each atom is read by the reader that its first terminal asks for. -/
theorem atom_gives
    (derived : Atom inner word expr)
    (place : Place steps (word ++ rest))
    (nonempty : rest ≠ []) :
    Gives (atom steps nested) (word ++ rest)
      (fun after value => after = rest ∧ value.bare = expr) fails := by
  cases derived with
  | @leaf symbol expr isLeaf =>
    refine .go .current fun token same => ?_
    rw [show token.symbol = symbol from same]
    cases symbol with
    | mark => cases isLeaf
    | _ =>
      cases isLeaf
      refine .go (.advance nofun nonempty) fun _ _ => ?_
      exact .pure ⟨rfl, rfl⟩
  | group derived =>
    simp only [List.cons_append, List.append_assoc, List.nil_append] at place ⊢
    refine .go .current fun token same => ?_
    rw [same]
    exact grouped_gives complete derived place nonempty
  | emptyArray =>
    refine .go .current fun token same => ?_
    rw [same]
    exact array_gives complete (.inl ⟨rfl, rfl⟩) place nonempty
  | array derived =>
    simp only [List.cons_append, List.append_assoc, List.nil_append] at place ⊢
    refine .go .current fun token same => ?_
    rw [same]
    exact array_gives complete (.inr derived) place nonempty
  | set derived =>
    simp only [List.cons_append, List.append_assoc, List.nil_append] at place ⊢
    refine .go .current fun token same => ?_
    rw [same]
    exact braces_gives_set complete derived place nonempty
  | map derived =>
    simp only [List.cons_append, List.append_assoc, List.nil_append] at place ⊢
    refine .go .current fun token same => ?_
    rw [same]
    exact braces_gives_map complete derived place nonempty

/-! ## Operands -/

/-- Behind an operand all its indices are read. -/
theorem indicesFrom_gives_behind
    {target : Expr}
    (derived : Indices inner target.bare word expr)
    (loose : Loose rest)
    (nonempty : rest ≠ [])
    (place : Place steps (word ++ rest))
    (short : (word ++ rest).length ≤ rounds) :
    GivesBehind (indicesFrom nested rounds target) (word ++ rest)
      (fun after value => after = rest ∧ value.bare = expr) fails := by
  induction rounds generalizing word target with
  | zero => exact absurd (List.length_eq_zero_iff.mp (Nat.le_zero.mp short)) place.ended.ne_nil
  | succ rounds hypothesis =>
    generalize isTarget : target.bare = bare at derived
    cases derived with
    | done =>
      obtain ⟨terminal, tail, rfl⟩ := List.exists_cons_of_ne_nil nonempty
      refine indicesFrom_gives (fun _ => ⟨rfl, isTarget⟩) fun isIndex => ?_
      exact (loose (congrArg some isIndex)).elim
    | @more _ key _ word others derived further =>
      simp only [List.cons_append, List.append_assoc] at place short ⊢
      refine indicesFrom_gives (fun noIndex => (noIndex rfl).elim) fun _ => ?_
      have restPlace := place.tail nofun
      have afterPlace := restPlace.after nofun
      refine .go (.advance nofun restPlace.ended.ne_nil) fun start _ => ?_
      refine .look (noMark_gives (complete.starts derived) Mark.noConfusion rfl) ?_
      refine .bind (complete.gives derived (.of_mark rfl rfl) restPlace) ?_
      rintro _ key ⟨rfl, rfl⟩
      refine .bind_behind (.closeBracket Mark.noConfusion Mark.noConfusion
        (fun _ => (afterPlace.tail nofun).ended.ne_nil) fun other => (other rfl).elim)
        (.closeBracket rfl start) ?_ ?_
      · rintro _ _ ⟨rfl, -⟩
        exact (afterPlace.tail nofun).ended
      · rintro _ stop ⟨rfl, -⟩
        refine hypothesis ?_ (afterPlace.tail nofun)
          (Nat.le_of_succ_le (length_le_of_cons_append short))
        rw [Expr.bare, isTarget]
        exact further

/-- An atom is read with all its indices. -/
theorem indexed_gives
    (derived : Indexed inner word expr)
    (loose : Loose rest)
    (nonempty : rest ≠ [])
    (place : Place steps (word ++ rest)) :
    Gives (indexed steps nested) (word ++ rest)
      (fun after value => after = rest ∧ value.bare = expr) fails := by
  cases derived with
  | @intro word others target _ derived further =>
    rw [List.append_assoc] at place ⊢
    have goesOn : others ++ rest ≠ [] := by simp [nonempty]
    have afterPlace := place.after goesOn
    refine .bind_behind (atom_gives complete derived place goesOn) (atom_stops steps nested) ?_ ?_
    · rintro _ _ ⟨rfl, -⟩
      exact afterPlace.ended
    · rintro _ target ⟨rfl, rfl⟩
      exact indicesFrom_gives_behind complete further loose nonempty afterPlace afterPlace.short

/-- An argument is no empty pair of parentheses. -/
theorem noEmptyParens_gives (derived : Indexed inner word expr) :
    Gives atEmptyParens (word ++ rest)
      (fun after found => after = word ++ rest ∧ found = false) fails := by
  obtain ⟨terminal, tail, rfl, -⟩ := derived.starts
  refine Gives.atEmptyParens.mono ?_
  rintro _ found ⟨rfl, decides⟩
  refine ⟨rfl, Bool.eq_false_iff.mpr fun isFound => ?_⟩
  obtain ⟨rfl, closes⟩ := decides.mp isFound
  generalize whole : Terminal.mark .openParen :: tail = text at derived
  cases derived with
  | intro atom _ =>
    cases atom with
    | @leaf symbol _ isLeaf =>
      obtain ⟨same, -⟩ := List.cons.inj whole
      cases same
      cases isLeaf
    | group derived =>
      obtain ⟨first, others, rfl, opens⟩ := complete.starts derived
      obtain ⟨-, rfl⟩ := List.cons.inj whole
      exact ne_mark_of_opensExpr opens rfl (Option.some.inj closes)
    | emptyArray
    | array
    | set
    | map => cases whole

omit complete in
/-- What follows a callee or an argument is an argument or ends the call; neither is an index. -/
theorem loose_of_arguments
    {arguments : List Expr}
    (further : Arguments inner word arguments)
    (loose : Loose rest) :
    Loose (word ++ rest) := by
  cases further with
  | done => exact loose
  | more derived _ =>
    obtain ⟨terminal, tail, rfl, opens⟩ := derived.starts
    intro isIndex
    obtain rfl := Option.some.inj isIndex
    cases opens

/-- Arguments are read up to what starts no atom. -/
theorem argumentsFrom_gives
    {level : Nat} {arguments : List Expr}
    (derived : Arguments inner word others)
    (stops : Delimits level rest)
    (place : Place steps (word ++ rest))
    (short : (word ++ rest).length ≤ rounds) :
    Gives (argumentsFrom steps nested rounds arguments) (word ++ rest)
      (fun after all => after = rest ∧ Expr.bareAll all = Expr.bareAll arguments ++ others)
      fails := by
  induction rounds generalizing word arguments others with
  | zero => exact absurd (List.length_eq_zero_iff.mp (Nat.le_zero.mp short)) place.ended.ne_nil
  | succ rounds hypothesis =>
    cases derived with
    | done =>
      obtain ⟨terminal, tail, rfl⟩ := List.exists_cons_of_ne_nil stops.nonempty
      refine .go .current fun token same => ?_
      rw [same, stops.noAtom terminal rfl]
      exact .pure ⟨rfl, by simp⟩
    | @more word others _ _ derived further =>
      rw [List.append_assoc] at place short ⊢
      have goesOn : others ++ rest ≠ [] := by simp [stops.nonempty]
      have afterPlace := place.after goesOn
      have shorter : (others ++ rest).length ≤ rounds := by
        obtain ⟨first, tail, rfl, -⟩ := derived.starts
        simp only [List.length_cons, List.length_append] at short ⊢
        omega
      obtain ⟨terminal, tail, shape, opens⟩ := derived.starts.append (others ++ rest)
      have isStart : terminal.toSymbol.startsAtom = true := by
        cases terminal with
        | symbol => exact opens
        | indexBracket => rfl
      rw [shape]
      refine .go .current fun token same => ?_
      rw [same, isStart, ← shape]
      refine .bind (noEmptyParens_gives complete derived) ?_
      rintro _ _ ⟨rfl, rfl⟩
      refine .bind (indexed_gives complete derived (loose_of_arguments further stops.loose)
        goesOn place) ?_
      rintro _ argument ⟨rfl, rfl⟩
      refine (hypothesis further afterPlace shorter).mono ?_
      rintro _ _ ⟨rfl, same⟩
      exact ⟨rfl, by simp [same, Expr.bareAll]⟩

/-- A callee is read with all its arguments. -/
theorem application_gives
    {level : Nat}
    (derived : Application inner word expr)
    (stops : Delimits level rest)
    (place : Place steps (word ++ rest)) :
    Gives (application steps nested) (word ++ rest)
      (fun after value => after = rest ∧ value.bare = expr) fails := by
  cases derived with
  | alone derived =>
    have afterPlace := place.after stops.nonempty
    refine .bind (indexed_gives complete derived stops.loose stops.nonempty place) ?_
    rintro _ callee ⟨rfl, rfl⟩
    obtain ⟨terminal, tail, rfl⟩ := List.exists_cons_of_ne_nil stops.nonempty
    refine .go .atEmptyParens fun found decides => ?_
    have noParens : found = false := by
      refine Bool.eq_false_iff.mpr fun isFound => ?_
      obtain ⟨rfl, -⟩ := decides.mp isFound
      cases stops.noAtom _ rfl
    rw [noParens]
    refine .bind (argumentsFrom_gives complete .done stops afterPlace afterPlace.short) ?_
    rintro _ arguments ⟨rfl, none⟩
    cases arguments with
    | nil => exact .pure ⟨rfl, rfl⟩
    | cons => cases none
  | @emptyCall word callee derived =>
    rw [List.append_assoc, List.cons_append, List.cons_append, List.nil_append] at place ⊢
    refine .bind (indexed_gives complete derived nofun nofun place) ?_
    rintro _ callee ⟨rfl, rfl⟩
    refine .go .atEmptyParens fun found decides => ?_
    rw [decides.mpr ⟨rfl, rfl⟩]
    refine .go (.advance nofun nofun) fun _ _ => ?_
    refine .go (.advance nofun stops.nonempty) fun stop _ => ?_
    exact .pure ⟨rfl, rfl⟩
  | @call word others callee arguments derived further isCall =>
    rw [List.append_assoc] at place ⊢
    have goesOn : others ++ rest ≠ [] := by simp [stops.nonempty]
    have afterPlace := place.after goesOn
    refine .bind (indexed_gives complete derived (loose_of_arguments further stops.loose)
      goesOn place) ?_
    rintro _ callee ⟨rfl, rfl⟩
    have noParens : Gives atEmptyParens (others ++ rest)
        (fun after found => after = others ++ rest ∧ found = false) fails := by
      cases further with
      | done => exact (isCall rfl).elim
      | @more word others _ _ derived _ =>
        rw [List.append_assoc]
        exact noEmptyParens_gives complete derived
    refine .bind noParens ?_
    rintro _ _ ⟨rfl, rfl⟩
    refine .bind (argumentsFrom_gives complete further stops afterPlace afterPlace.short) ?_
    rintro _ all ⟨rfl, rfl⟩
    cases isLast : all.getLast? with
    | none => exact (isCall (congrArg Expr.bareAll (List.getLast?_eq_none_iff.mp isLast))).elim
    | some last => exact .pure ⟨rfl, rfl⟩

omit complete in
/-- Behind a right operand stands an operator that binds looser or what ends the whole. -/
theorem stops_of_operators
    {level : Nat} {left : Expr}
    (further : Operators inner least left word expr)
    (looser : BindsLooser level word)
    (stops : Delimits least rest)
    (below : least ≤ level) :
    Delimits level (word ++ rest) := by
  cases further with
  | done => exact stops.mono below
  | @more _ _ _ operator _ _ _ isOperator =>
    refine ⟨nofun, ?_, looser⟩
    rintro _ ⟨⟩
    show operator.opensBracket = false
    cases operator <;> first | rfl | cases isOperator

/-- Operators are read as long as they bind tightly enough, each with its right operand. -/
theorem operatorsFrom_gives
    {left : Expr}
    (derived : Operators inner least left.bare word expr)
    (stops : Delimits least rest)
    (place : Place steps (word ++ rest))
    (short : (word ++ rest).length ≤ rounds) :
    Gives (operatorsFrom nested least rounds left) (word ++ rest)
      (fun after value => after = rest ∧ value.bare = expr) fails := by
  induction rounds generalizing word left with
  | zero => exact absurd (List.length_eq_zero_iff.mp (Nat.le_zero.mp short)) place.ended.ne_nil
  | succ rounds hypothesis =>
    generalize isLeft : left.bare = bare at derived
    cases derived with
    | done =>
      obtain ⟨terminal, tail, rfl⟩ := List.exists_cons_of_ne_nil stops.nonempty
      refine .go .current fun token same => ?_
      have sameKind : token.kind.precedence? = terminal.precedence? :=
        congrArg (fun symbol => symbol.kind.precedence?) same
      rw [sameKind]
      cases isOperator : terminal.precedence? with
      | none => exact .pure ⟨rfl, isLeft⟩
      | some precedence =>
        dsimp only
        rw [if_pos (stops.looser terminal rfl precedence isOperator)]
        exact .pure ⟨rfl, isLeft⟩
    | @more _ right _ operator precedence word others isOperator above derived looser further =>
      simp only [List.cons_append, List.append_assoc] at place short ⊢
      have inside : Terminal.mark operator ≠ .mark .endOfInput := by
        rintro ⟨⟩
        cases isOperator
      have goesOn : others ++ rest ≠ [] := by simp [stops.nonempty]
      have restPlace := place.tail inside
      have afterPlace := restPlace.after goesOn
      have below : least ≤ operandLevel (.mark operator) precedence := by
        unfold operandLevel
        split <;> omega
      refine .go .current fun token same => ?_
      have sameKind : token.kind = .mark operator := congrArg Symbol.kind same
      rw [sameKind, isOperator]
      dsimp only
      rw [if_neg (Nat.not_lt.mpr above)]
      refine .go (.advance inside restPlace.ended.ne_nil) fun _ _ => ?_
      refine .bind (complete.gives derived (stops_of_operators further looser stops below)
        restPlace) ?_
      rintro _ right ⟨rfl, rfl⟩
      refine hypothesis ?_ afterPlace (length_le_of_cons_append short)
      rw [Expr.bare, isLeft]
      exact further

omit complete in
/-- No operator has a precedence above 5. -/
theorem bindsLooser_max (least : Nat) (word : Word) : BindsLooser (max least 6) word := by
  intro terminal _ precedence isOperator
  obtain ⟨operator, -, isOperator⟩ := exists_mark_of_precedence? isOperator
  refine Nat.lt_of_lt_of_le ?_ (Nat.le_max_right least 6)
  cases operator <;> cases isOperator <;> decide

theorem binary_gives
    (derived : Operand inner least word expr)
    (stops : Delimits least rest)
    (place : Place steps (word ++ rest)) :
    Gives (binary steps nested least) (word ++ rest)
      (fun after value => after = rest ∧ value.bare = expr) fails := by
  cases derived with
  | @intro word others left _ derived further =>
    rw [List.append_assoc] at place ⊢
    have goesOn : others ++ rest ≠ [] := by simp [stops.nonempty]
    have afterPlace := place.after goesOn
    have stopsLeft := stops_of_operators further (bindsLooser_max least others) stops
      (Nat.le_max_left least 6)
    refine .bind (application_gives complete derived stopsLeft place) ?_
    rintro _ left ⟨rfl, rfl⟩
    exact operatorsFrom_gives complete further stops afterPlace afterPlace.short

/-! ## Expressions and statements -/

/-- An expression is read up to what does not prolong it. -/
theorem expression_gives
    (derived : Expression inner word expr)
    (stops : Delimits 0 rest)
    (place : Place steps (word ++ rest)) :
    Gives (expression steps nested) (word ++ rest)
      (fun after value => after = rest ∧ value.bare = expr) fails := by
  cases derived with
  | operand derived =>
    obtain ⟨terminal, tail, shape, opens⟩ := derived.starts.append rest
    have noFunction : terminal ≠ .mark .funWord := by
      rintro rfl
      cases opens
    rw [shape]
    refine .look (.atMark_of_ne Mark.noConfusion noFunction) ?_
    rw [← shape]
    exact binary_gives complete derived stops place
  | function distinct derived =>
    simp only [List.cons_append, List.append_assoc] at place ⊢
    refine .look (.atMark_of_eq Mark.noConfusion) ?_
    exact function_gives complete distinct derived stops place

omit complete in
/-- The marks behind a statement. -/
inductive EndsStatement : Word → Prop where
  | separator
      {rest : Word} :
      EndsStatement (.mark .itemSeparator :: rest)
  | blockEnd
      {rest : Word} :
      EndsStatement (.mark .blockEnd :: rest)
  | endOfInput
      {rest : Word} :
      EndsStatement (.mark .endOfInput :: rest)

omit complete in
/-- What ends a statement ends every operand in it. -/
theorem EndsStatement.stops {rest : Word} (ends : EndsStatement rest) : Delimits 0 rest := by
  cases ends with
  | separator
  | blockEnd
  | endOfInput => exact .of_mark rfl rfl

theorem expressionStatement_gives
    (derived : Expression inner word expr)
    (ends : EndsStatement rest)
    (place : Place steps (word ++ rest)) :
    Gives (do
      let value ← expression steps nested
      return [.expression value.span value]) (word ++ rest)
      (fun after all => after = rest ∧ Stmt.bareAll all = [.expression .nowhere expr]) fails := by
  refine .bind (expression_gives complete derived ends.stops place) ?_
  rintro _ value ⟨rfl, rfl⟩
  exact .pure ⟨rfl, rfl⟩

/-- An expression is not taken for another statement. -/
theorem statement_gives_expression
    (derived : Expression inner word expr)
    (ends : EndsStatement rest)
    (place : Place steps (word ++ rest)) :
    Gives (statement steps nested) (word ++ rest)
      (fun after all => after = rest ∧ Stmt.bareAll all = [.expression .nowhere expr]) fails := by
  obtain ⟨terminal, tail, rfl, opens⟩ := derived.starts
  refine .go .current fun token same => ?_
  split
  · next isLet =>
      have isTerminal := (Terminal.eq_mark_iff Mark.noConfusion).mpr (same.symm.trans isLet)
      exact (ne_mark_of_opensExpr opens rfl isTerminal).elim
  · next isVar =>
      have isTerminal := (Terminal.eq_mark_iff Mark.noConfusion).mpr (same.symm.trans isVar)
      exact (ne_mark_of_opensExpr opens rfl isTerminal).elim
  · next name isName =>
      have isTerminal := Terminal.eq_name_iff.mpr (same.symm.trans isName)
      subst isTerminal
      refine .go (.atNameBefore Mark.noConfusion) fun found decides => ?_
      have noAssign : found = false := by
        refine Bool.eq_false_iff.mpr fun isFound => ?_
        have assigned := (decides.mp isFound).2
        cases tail with
        | nil =>
          cases ends with
          | separator
          | blockEnd
          | endOfInput => cases assigned
        | cons second tail =>
          have prolongs := derived.prolongs_of_name second rfl
          rw [Option.some.inj assigned] at prolongs
          cases prolongs
      rw [noAssign]
      exact expressionStatement_gives complete derived ends place
  · exact expressionStatement_gives complete derived ends place

/-- A statement of each kind is read by its own reader. -/
theorem statement_gives
    (derived : Statement inner word stmts)
    (ends : EndsStatement rest)
    (place : Place steps (word ++ rest)) :
    Gives (statement steps nested) (word ++ rest)
      (fun after all => after = rest ∧ Stmt.bareAll all = stmts) fails := by
  cases derived with
  | binding derived =>
    refine .go .current fun token same => ?_
    rw [same]
    exact letStatement_gives_one complete derived ends.stops place
  | bindings derived =>
    simp only [List.cons_append, List.append_assoc, List.nil_append] at place ⊢
    refine .go .current fun token same => ?_
    rw [same]
    exact letStatement_gives_group complete derived place ends.stops.nonempty
  | mutable derived =>
    refine .go .current fun token same => ?_
    rw [same]
    refine .go (varStatement_gives complete derived ends.stops place) fun stmt same => ?_
    exact .pure ⟨rfl, congrArg (fun stmt => [stmt]) same⟩
  | @assignment name word body derived =>
    refine .go .current fun token same => ?_
    rw [same]
    refine .go (.atNameBefore Mark.noConfusion) fun found decides => ?_
    rw [decides.mpr ⟨⟨name, rfl⟩, rfl⟩]
    refine .go (assignment_gives complete derived ends.stops place) fun stmt same => ?_
    exact .pure ⟨rfl, congrArg (fun stmt => [stmt]) same⟩
  | expression derived => exact statement_gives_expression complete derived ends place

omit complete in
theorem endsStatement_of_rest
    {others : List Stmt}
    (further : Rest .itemSeparator false (Statement inner) word others)
    (ends : EndsStatement rest) :
    EndsStatement (word ++ rest) := by
  cases further with
  | done => exact ends
  | trailing
  | more => exact .separator

/-- Further statements are read as long as separators follow. -/
theorem statementsFrom_gives
    {others : List Stmt}
    (derived : Rest .itemSeparator false (Statement inner) word others)
    (ends : EndsStatement rest)
    (noItem : rest.head? ≠ some (.mark .itemSeparator))
    (place : Place steps (word ++ rest))
    (short : (word ++ rest).length ≤ rounds) :
    Gives (statementsFrom steps nested rounds stmts) (word ++ rest)
      (fun after all => after = rest ∧ Stmt.bareAll all = Stmt.bareAll stmts ++ others)
      fails := by
  induction rounds generalizing word stmts others with
  | zero => exact absurd (List.length_eq_zero_iff.mp (Nat.le_zero.mp short)) place.ended.ne_nil
  | succ rounds hypothesis =>
    cases derived with
    | done =>
      obtain ⟨terminal, tail, rfl⟩ := List.exists_cons_of_ne_nil ends.stops.nonempty
      refine .look (.passMark_of_ne Mark.noConfusion fun same => noItem (congrArg some same)) ?_
      exact .pure ⟨rfl, by simp⟩
    | trailing isTrailing => cases isTrailing
    | @more word others _ _ derived further =>
      simp only [List.cons_append, List.append_assoc] at place short ⊢
      have goesOn : others ++ rest ≠ [] := by simp [ends.stops.nonempty]
      have restPlace := place.tail nofun
      have afterPlace := restPlace.after goesOn
      refine .pass Mark.noConfusion Mark.noConfusion restPlace.ended.ne_nil fun _ => ?_
      refine .bind (statement_gives complete derived (endsStatement_of_rest further ends)
        restPlace) ?_
      rintro _ more ⟨rfl, rfl⟩
      refine (hypothesis further afterPlace (length_le_of_cons_append short)).mono ?_
      rintro _ _ ⟨rfl, same⟩
      exact ⟨rfl, by simp [same]⟩

/-- Statements are read up to the mark that ends them. -/
theorem statements_gives
    {terminator : Mark}
    (derived : Statements inner word stmts)
    (ends : EndsStatement (.mark terminator :: rest))
    (noItem : terminator ≠ .itemSeparator)
    (place : Place steps (word ++ .mark terminator :: rest)) :
    Gives (statements steps nested terminator) (word ++ .mark terminator :: rest)
      (fun after all => after = .mark terminator :: rest ∧ Stmt.bareAll all = stmts) fails := by
  cases derived with
  | @intro word others _ _ derived further =>
    rw [List.append_assoc] at place ⊢
    have afterPlace := place.after (by simp)
    refine .bind (statement_gives complete derived (endsStatement_of_rest further ends) place) ?_
    rintro _ first ⟨rfl, rfl⟩
    have noSeparator : (Terminal.mark terminator :: rest).head? ≠ some (.mark .itemSeparator) :=
      fun same => noItem (by cases same; rfl)
    refine .go (statementsFrom_gives complete further ends noSeparator afterPlace
      afterPlace.short) fun all same => ?_
    refine .bind .current ?_
    rintro _ token ⟨rfl, sameSymbol⟩
    rw [show token.symbol = .mark terminator from sameSymbol]
    have noCloser : terminator.closesBracket = false := by
      cases ends with
      | separator
      | blockEnd
      | endOfInput => rfl
    dsimp only
    rw [noCloser, if_neg Bool.false_ne_true, if_pos rfl]
    exact .pure ⟨rfl, same⟩

theorem block_gives
    (derived : Statements inner word stmts)
    (place : Place steps (.mark .blockStart :: (word ++ .mark .blockEnd :: rest)))
    (nonempty : rest ≠ []) :
    Gives (block steps nested) (.mark .blockStart :: (word ++ .mark .blockEnd :: rest))
      (fun after expr => after = rest ∧ expr.bare = .block .nowhere stmts) fails := by
  have restPlace := place.tail nofun
  refine .go (.advance nofun restPlace.ended.ne_nil) fun start _ => ?_
  refine .bind (statements_gives complete derived .blockEnd Mark.noConfusion restPlace) ?_
  rintro _ all ⟨rfl, rfl⟩
  refine .go (.advance nofun nonempty) fun _ _ => ?_
  refine .span fun _ => ?_
  exact .pure ⟨rfl, rfl⟩

/-- A phrase is read if the phrases inside it are. -/
theorem phraseWith_gives
    {form : Phrase}
    (derived : PhraseOf inner form word expr)
    (stops : Delimits form.level rest)
    (place : Place steps (word ++ rest)) :
    Gives (phraseWith steps nested form) (word ++ rest)
      (fun after value => after = rest ∧ value.bare = expr) fails := by
  cases derived with
  | block derived =>
    simp only [List.cons_append, List.append_assoc, List.nil_append] at place ⊢
    refine .look (.atMark_of_eq Mark.noConfusion) ?_
    exact block_gives complete derived place stops.nonempty
  | body derived =>
    refine .look (noMark_gives derived.starts Mark.noConfusion rfl) ?_
    exact expression_gives complete derived stops place
  | expression derived => exact expression_gives complete derived stops place
  | operand derived => exact binary_gives complete derived stops place

end

/-- A phrase was nested too deeply. -/
def TooDeep (fault : Fault) : Prop :=
  ∃ span, fault = .located (.syntactic .nestedTooDeeply) span

/-- A phrase of the grammar is read, unless it needs more room than there is. -/
theorem phrase_complete (steps room levels : Nat) :
    Complete (Within levels) steps (phrase steps room)
      fun fault => room < levels ∧ TooDeep fault := by
  induction room using Nat.strongRecOn generalizing levels with
  | _ room hypothesis =>
    refine ⟨?_, fun within => within.starts nofun, Within.prolongs_of_name⟩
    intro form word expr rest within stops place
    obtain ⟨needed, derived⟩ := within_iff.mp within
    by_cases fits : form.levels ≤ room
    · rw [phrase_of_fits fits]
      have inside := hypothesis _ (Phrase.sub_levels_lt fits) (levels - form.levels)
      simp only [Nat.sub_lt_sub_iff_right fits] at inside
      exact phraseWith_gives inside derived stops place
    · rw [phrase_of_not_fits fits]
      obtain ⟨terminal, tail, shape⟩ := place.exists_cons
      rw [shape]
      refine .go .current fun token _ => ?_
      exact .failAt ⟨Nat.lt_of_lt_of_le (Nat.lt_of_not_le fits) needed, token.span, rfl⟩

end Reading

end Offside
