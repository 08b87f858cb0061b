import Offside.Proofs.Syntax.Recognition

namespace Offside

/-!
# The token lists that are programs

The language has a plain context-free grammar, in which operators are joined to applications
without regard to their precedence and nothing counts the levels of nesting:

    program     := [statements] endOfInput
    statements  := statement | statement itemSeparator statements
    statement   := let | var | assignment | expr
    let         := "let" (binding | blockStart bindings blockEnd)
    bindings    := binding | binding itemSeparator bindings
    binding     := name name* "=" body
    var         := "var" name "=" body
    assignment  := name "=" body
    body        := block | expr
    block       := blockStart statements blockEnd
    expr        := lambda | binary
    lambda      := "fun" name* "->" body
    binary      := application | application operator binary
    application := indexed+ | indexed "(" ")"
    indexed     := atom | indexed "[" expr "]"      without a blank before "["
    atom        := literal | name | "(" expr ")" | "[" [elements] "]"
                 | "{" elements "}" | "{" entries "}"
    elements    := expr | expr "," | expr "," elements
    entries     := entry | entry "," | entry "," entries
    entry       := (name | expr) ":" expr

A token list is read as a program exactly if this grammar derives it and its phrases do not
nest too deeply.
-/

namespace Grammar

variable {form : Phrase} {word : Word} {expr : Expr}

/-- The kinds of phrases. -/
inductive Nonterminal where
  | program
  | statements
  | statement
  | letStatement
  | bindings
  | binding
  | varStatement
  | assignment
  | body
  | block
  | expr
  | lambda
  | binary
  | application
  | arguments
  | indexed
  | atom
  | elements
  | entries
  | entry
deriving Repr, DecidableEq

/-- The rules of the grammar.  In a list of parameters no name occurs twice. -/
inductive Derives : Nonterminal → Word → Prop where
  | emptyProgram :
      Derives .program [.mark .endOfInput]
  | program
      {word : Word} :
      Derives .statements word →
      Derives .program (word ++ [.mark .endOfInput])
  | lastStatement
      {word : Word} :
      Derives .statement word →
      Derives .statements word
  | moreStatements
      {word rest : Word} :
      Derives .statement word →
      Derives .statements rest →
      Derives .statements (word ++ .mark .itemSeparator :: rest)
  | letStatement
      {word : Word} :
      Derives .letStatement word →
      Derives .statement word
  | varStatement
      {word : Word} :
      Derives .varStatement word →
      Derives .statement word
  | assignmentStatement
      {word : Word} :
      Derives .assignment word →
      Derives .statement word
  | exprStatement
      {word : Word} :
      Derives .expr word →
      Derives .statement word
  | letOne
      {word : Word} :
      Derives .binding word →
      Derives .letStatement (.mark .letWord :: word)
  | letGroup
      {word : Word} :
      Derives .bindings word →
      Derives .letStatement
        (.mark .letWord :: .mark .blockStart :: (word ++ [.mark .blockEnd]))
  | lastBinding
      {word : Word} :
      Derives .binding word →
      Derives .bindings word
  | moreBindings
      {word rest : Word} :
      Derives .binding word →
      Derives .bindings rest →
      Derives .bindings (word ++ .mark .itemSeparator :: rest)
  | binding
      {name : Text} {parameters : List Text} {word : Word} :
      parameters.Nodup →
      Derives .body word →
      Derives .binding (.name name :: (parameters.map .name ++ .mark .assign :: word))
  | mutable
      {name : Text} {word : Word} :
      Derives .body word →
      Derives .varStatement (.mark .varWord :: .name name :: .mark .assign :: word)
  | assignment
      {name : Text} {word : Word} :
      Derives .body word →
      Derives .assignment (.name name :: .mark .assign :: word)
  | blockBody
      {word : Word} :
      Derives .block word →
      Derives .body word
  | exprBody
      {word : Word} :
      Derives .expr word →
      Derives .body word
  | block
      {word : Word} :
      Derives .statements word →
      Derives .block (.mark .blockStart :: (word ++ [.mark .blockEnd]))
  | lambdaExpr
      {word : Word} :
      Derives .lambda word →
      Derives .expr word
  | binaryExpr
      {word : Word} :
      Derives .binary word →
      Derives .expr word
  | lambda
      {parameters : List Text} {word : Word} :
      parameters.Nodup →
      Derives .body word →
      Derives .lambda (.mark .funWord :: (parameters.map .name ++ .mark .arrow :: word))
  | lastOperand
      {word : Word} :
      Derives .application word →
      Derives .binary word
  | operator
      {word rest : Word} {operator : Mark} :
      Derives .application word →
      (TokenKind.mark operator).precedence?.isSome →
      Derives .binary rest →
      Derives .binary (word ++ .mark operator :: rest)
  | emptyCall
      {word : Word} :
      Derives .indexed word →
      Derives .application (word ++ [.mark .openParen, .mark .closeParen])
  | application
      {word rest : Word} :
      Derives .indexed word →
      Derives .arguments rest →
      Derives .application (word ++ rest)
  | noArgument :
      Derives .arguments []
  | argument
      {word rest : Word} :
      Derives .indexed word →
      Derives .arguments rest →
      Derives .arguments (word ++ rest)
  | atom
      {word : Word} :
      Derives .atom word →
      Derives .indexed word
  | index
      {word key : Word} :
      Derives .indexed word →
      Derives .expr key →
      Derives .indexed (word ++ .indexBracket :: (key ++ [.mark .closeBracket]))
  | literal
      {symbol : Symbol} :
      symbol.isLiteral →
      Derives .atom [.symbol symbol]
  | name
      {name : Text} :
      Derives .atom [.name name]
  | group
      {word : Word} :
      Derives .expr word →
      Derives .atom (.mark .openParen :: (word ++ [.mark .closeParen]))
  | emptyArray :
      Derives .atom [.mark .openBracket, .mark .closeBracket]
  | array
      {word : Word} :
      Derives .elements word →
      Derives .atom (.mark .openBracket :: (word ++ [.mark .closeBracket]))
  | set
      {word : Word} :
      Derives .elements word →
      Derives .atom (.mark .openBrace :: (word ++ [.mark .closeBrace]))
  | map
      {word : Word} :
      Derives .entries word →
      Derives .atom (.mark .openBrace :: (word ++ [.mark .closeBrace]))
  | lastElement
      {word : Word} :
      Derives .expr word →
      Derives .elements word
  | trailingElement
      {word : Word} :
      Derives .expr word →
      Derives .elements (word ++ [.mark .comma])
  | moreElements
      {word rest : Word} :
      Derives .expr word →
      Derives .elements rest →
      Derives .elements (word ++ .mark .comma :: rest)
  | lastEntry
      {word : Word} :
      Derives .entry word →
      Derives .entries word
  | trailingEntry
      {word : Word} :
      Derives .entry word →
      Derives .entries (word ++ [.mark .comma])
  | moreEntries
      {word rest : Word} :
      Derives .entry word →
      Derives .entries rest →
      Derives .entries (word ++ .mark .comma :: rest)
  | namedEntry
      {name : Text} {word : Word} :
      Derives .expr word →
      Derives .entry (.name name :: .mark .colon :: word)
  | keyedEntry
      {key word : Word} :
      Derives .expr key →
      Derives .expr word →
      Derives .entry (key ++ .mark .colon :: word)

/-! ## Derivations without trees -/

/-- The kind of phrase that a reader is asked for. -/
def kindOf : Phrase → Nonterminal
  | .body => .body
  | .expression => .expr
  | .operand _ => .binary

/-- Two chains of operands with an operator between them are one. -/
theorem Derives.binary_append
    {rest : Word} {operator : Mark}
    (first : Derives .binary word)
    (isOperator : (TokenKind.mark operator).precedence?.isSome)
    (second : Derives .binary rest) :
    Derives .binary (word ++ .mark operator :: rest) := by
  generalize isBinary : Nonterminal.binary = kind at first
  induction first with
  | lastOperand application => exact .operator application isOperator second
  | operator application other _ _ hypothesis =>
    rw [List.append_assoc, List.cons_append]
    exact .operator application other (hypothesis isBinary)
  | _ => cases isBinary

/-- Items between separators derive a list of them, by the rules for its last item, for a
separator at its end and for more items. -/
theorem Series.derives
    {α : Type} {separator : Mark} {trailing : Bool} {item : Word → List α → Prop}
    {items : List α}
    (series : Series separator trailing item word items)
    {kind list : Nonterminal}
    (isKind : ∀ {word items}, item word items → Derives kind word)
    (last : ∀ {word}, Derives kind word → Derives list word)
    (atEnd : ∀ {word}, trailing = true → Derives kind word →
      Derives list (word ++ [Terminal.mark separator]))
    (more : ∀ {word rest}, Derives kind word → Derives list rest →
      Derives list (word ++ .mark separator :: rest)) :
    Derives list word := by
  cases series with
  | @intro word rest _ _ first others =>
    replace first := isKind first
    induction others generalizing word with
    | done => simpa using last first
    | trailing isTrailing => exact atEnd isTrailing first
    | more item _ hypothesis =>
      exact more first (hypothesis (isKind item))

section

variable {inner : Phrase → Word → Expr → Prop}
  (innerDerives : ∀ {form word expr}, inner form word expr → Derives (kindOf form) word)
  {word : Word} {expr : Expr}

variable {stmts : List Stmt}
include innerDerives

/-- What the layers of the grammar derive with a tree, the rules without trees derive too. -/
theorem Binding.derives (binding : Binding inner word stmts) : Derives .binding word := by
  cases binding with
  | intro distinct body => exact .binding distinct (innerDerives body)

theorem Element.derives {exprs : List Expr} (element : Element inner word exprs) :
    Derives .expr word := by
  cases element with
  | intro expression => exact innerDerives expression

/-- Both keys, a lone name and an expression, are keys of an entry. -/
theorem MapEntry.derives {entries : List Entry} (entry : MapEntry inner word entries) :
    Derives .entry word := by
  cases entry with
  | named value => exact .namedEntry (innerDerives value)
  | keyed _ key value => exact .keyedEntry (innerDerives key) (innerDerives value)

/-- An atom is derived from what stands in its brackets. -/
theorem Atom.derives (atom : Atom inner word expr) : Derives .atom word := by
  have elements {word : Word} {exprs : List Expr}
      (series : Series .comma true (Element inner) word exprs) : Derives .elements word :=
    series.derives (Element.derives innerDerives) .lastElement (fun _ => .trailingElement)
      .moreElements
  cases atom with
  | @leaf symbol _ isLeaf =>
    cases symbol with
    | identifier => exact .name
    | mark => cases isLeaf
    | _ => exact .literal rfl
  | group expression => exact .group (innerDerives expression)
  | emptyArray => exact .emptyArray
  | array series => exact .array (elements series)
  | set series => exact .set (elements series)
  | map series =>
    exact .map (series.derives (MapEntry.derives innerDerives) .lastEntry
      (fun _ => .trailingEntry) .moreEntries)

/-- Indices are derived behind what they index. -/
theorem Indices.derives
    {front : Word} {target : Expr}
    (first : Derives .indexed front)
    (indices : Indices inner target word expr) :
    Derives .indexed (front ++ word) := by
  induction indices generalizing front with
  | done => simpa using first
  | @more _ _ _ word rest key _ hypothesis =>
    have next := hypothesis (.index first (innerDerives key))
    simpa using next

theorem Indexed.derives (indexed : Indexed inner word expr) : Derives .indexed word := by
  cases indexed with
  | intro atom indices => exact indices.derives innerDerives (.atom (atom.derives innerDerives))

theorem Arguments.derives {arguments : List Expr} (derived : Arguments inner word arguments) :
    Derives .arguments word := by
  induction derived with
  | done => exact .noArgument
  | more indexed _ hypothesis =>
    exact .argument (indexed.derives innerDerives) hypothesis

/-- The three forms of an application are those of the rules. -/
theorem Application.derives (application : Application inner word expr) :
    Derives .application word := by
  cases application with
  | alone indexed =>
    have alone := Derives.application (indexed.derives innerDerives) .noArgument
    simpa using alone
  | emptyCall indexed => exact .emptyCall (indexed.derives innerDerives)
  | call indexed arguments _ =>
    exact .application (indexed.derives innerDerives) (arguments.derives innerDerives)

/-- Operators are derived behind their left operand, without regard to precedence. -/
theorem Operators.derives
    {least : Nat} {left : Expr} {front : Word}
    (first : Derives .binary front)
    (operators : Operators inner least left word expr) :
    Derives .binary (front ++ word) := by
  induction operators generalizing front with
  | done => simpa using first
  | @more _ _ _ operator precedence word rest isOperator _ right _ _ hypothesis =>
    have isSome : (TokenKind.mark operator).precedence?.isSome := by rw [isOperator]; rfl
    have next := hypothesis (first.binary_append isSome (innerDerives right))
    simpa using next

/-- An operand is a chain, whatever the precedence of its operators. -/
theorem Operand.derives {least : Nat} (operand : Operand inner least word expr) :
    Derives .binary word := by
  cases operand with
  | intro application operators =>
    exact operators.derives innerDerives (.lastOperand (application.derives innerDerives))

/-- An expression is a chain of operands or a function. -/
theorem Expression.derives (expression : Expression inner word expr) : Derives .expr word := by
  cases expression with
  | operand operand => exact .binaryExpr (operand.derives innerDerives)
  | function distinct body => exact .lambdaExpr (.lambda distinct (innerDerives body))

/-- The five forms of a statement are those of the rules. -/
theorem Statement.derives (statement : Statement inner word stmts) : Derives .statement word := by
  cases statement with
  | binding binding => exact .letStatement (.letOne (binding.derives innerDerives))
  | bindings series =>
    exact .letStatement (.letGroup (series.derives (Binding.derives innerDerives) .lastBinding
      (fun noTrailing => (Bool.false_ne_true noTrailing).elim) .moreBindings))
  | mutable body => exact .varStatement (.mutable (innerDerives body))
  | assignment body => exact .assignmentStatement (.assignment (innerDerives body))
  | expression expression => exact .exprStatement (expression.derives innerDerives)

theorem Statements.derives (statements : Statements inner word stmts) : Derives .statements word :=
  Series.derives statements (Statement.derives innerDerives) .lastStatement
    (fun noTrailing => (Bool.false_ne_true noTrailing).elim) .moreStatements

/-- A phrase is derived as what its form stands for. -/
theorem PhraseOf.derives (phrase : PhraseOf inner form word expr) : Derives (kindOf form) word := by
  cases phrase with
  | block statements => exact .blockBody (.block (Statements.derives innerDerives statements))
  | body expression => exact .exprBody (expression.derives innerDerives)
  | expression expression => exact expression.derives innerDerives
  | operand operand => exact operand.derives innerDerives

/-- A program is empty or made of statements. -/
theorem ProgramOf.derives (program : ProgramOf inner word stmts) : Derives .program word := by
  cases program with
  | empty => exact .emptyProgram
  | statements statements => exact .program (Statements.derives innerDerives statements)

end

/-- A phrase is derived whatever room it takes. -/
theorem Within.derives
    {room : Nat}
    (within : Within room form word expr) :
    Derives (kindOf form) word := by
  induction room using Nat.strongRecOn generalizing form word expr with
  | _ room hypothesis =>
    obtain ⟨fits, phrase⟩ := within_iff.mp within
    exact PhraseOf.derives (hypothesis _ (Phrase.sub_levels_lt fits)) phrase

/-! ## Derivations with trees

A derivation has finitely many levels, so it has a tree wherever there is room enough. -/

/-- Something holds wherever there is room enough. -/
def Eventually (holds : Nat → Prop) : Prop :=
  ∃ room, ∀ more, room ≤ more → holds more

namespace Eventually

variable {first second holds : Nat → Prop}

/-- What holds with enough room implies something that holds with enough room. -/
theorem map (eventually : Eventually first) (implies : ∀ room, first room → holds room) :
    Eventually holds := by
  obtain ⟨room, always⟩ := eventually
  exact ⟨room, fun more enough => implies more (always more enough)⟩

/-- Two things that hold with enough room hold together with the larger of the two. -/
theorem map₂
    (left : Eventually first)
    (right : Eventually second)
    (implies : ∀ room, first room → second room → holds room) :
    Eventually holds := by
  obtain ⟨room, always⟩ := left
  obtain ⟨other, alwaysOther⟩ := right
  refine ⟨max room other, fun more enough => implies more (always more ?_) (alwaysOther more ?_)⟩
  · exact Nat.le_trans (Nat.le_max_left ..) enough
  · exact Nat.le_trans (Nat.le_max_right ..) enough

/-- What always holds holds with enough room. -/
theorem const (always : ∀ room, holds room) : Eventually holds :=
  ⟨0, fun more _ => always more⟩

/-- The levels of a phrase itself make it of its inner phrases. -/
theorem within
    (eventually : Eventually fun room => PhraseOf (Within room) form word expr) :
    Eventually fun room => Within room form word expr := by
  obtain ⟨room, always⟩ := eventually
  refine ⟨room + form.levels, fun more enough => within_iff.mpr ⟨?_, always _ ?_⟩⟩
  · exact Nat.le_trans (Nat.le_add_left ..) enough
  · exact Nat.le_sub_of_add_le enough

end Eventually

/-- A word is an application wherever there is room enough. -/
def Applies (word : Word) : Prop :=
  ∃ expr, Eventually fun room => Application (Within room) word expr

/-- The word of operators with the applications behind them. -/
def chainWord (chain : List (Mark × Word)) : Word :=
  chain.flatMap fun (operator, word) => .mark operator :: word

/-- Each link of a chain is an operator with an application behind it. -/
def Chained (chain : List (Mark × Word)) : Prop :=
  ∀ link ∈ chain, (TokenKind.mark link.1).precedence?.isSome ∧ Applies link.2

/-- The front of a chain starts as the chain does. -/
theorem BindsLooser.chainWord_left
    {level : Nat} {chain rest : List (Mark × Word)}
    (looser : BindsLooser level (chainWord (chain ++ rest))) :
    BindsLooser level (chainWord chain) := by
  rw [chainWord, List.flatMap_append] at looser
  exact looser.of_append

/-- Precedence climbing: of a chain, the operators of at least a precedence are taken as far
as they go.  The right operand of the first of them is climbed at its own level, and the rest
of the chain, which is shorter, behind the two operands joined. -/
theorem exists_operators
    (least : Nat)
    (left : Expr)
    (chain : List (Mark × Word))
    (chained : Chained chain) :
    ∃ taken rest expr, chain = taken ++ rest ∧ BindsLooser least (chainWord rest) ∧
      Eventually fun room => Operators (Within room) least left (chainWord taken) expr := by
  match chain with
  | [] => exact ⟨[], [], left, rfl, nofun, .const fun _ => .done⟩
  | (operator, word) :: chain =>
    obtain ⟨isOperator, application, applied⟩ := chained _ List.mem_cons_self
    obtain ⟨precedence, isOperator⟩ := Option.isSome_iff_exists.mp isOperator
    by_cases above : least ≤ precedence
    · have chainedRest : Chained chain :=
        fun link member => chained link (List.mem_cons_of_mem _ member)
      obtain ⟨inside, outside, right, rfl, looser, rightOperators⟩ :=
        exists_operators (operandLevel (.mark operator) precedence) application chain chainedRest
      have chainedOutside : Chained outside :=
        fun link member => chainedRest link (List.mem_append_right _ member)
      obtain ⟨taken, rest, expr, rfl, looserRest, operators⟩ :=
        exists_operators least (.binary .nowhere left (.mark operator) right) outside
          chainedOutside
      have rightOperand : Eventually fun room => Within room
          (.operand (operandLevel (.mark operator) precedence)) (word ++ chainWord inside)
          right :=
        .within (applied.map₂ rightOperators fun _ first further =>
          .operand (.intro first further))
      refine ⟨(operator, word) :: (inside ++ taken), rest, expr, by simp, looserRest, ?_⟩
      refine rightOperand.map₂ operators fun room derived further => ?_
      have joined : chainWord ((operator, word) :: (inside ++ taken)) =
          .mark operator :: ((word ++ chainWord inside) ++ chainWord taken) := by
        simp [chainWord]
      rw [joined]
      exact .more isOperator above derived looser.chainWord_left further
    · refine ⟨[], (operator, word) :: chain, left, rfl, ?_, .const fun _ => .done⟩
      rintro _ ⟨⟩ found isFound
      obtain rfl := Option.some.inj (isOperator.symm.trans isFound)
      exact Nat.lt_of_not_le above
  termination_by chain.length

/-- What a derived word has a tree of. -/
def Realised : Nonterminal → Word → Prop
  | .program, word => ∃ stmts, Eventually fun room => ProgramOf (Within room) word stmts
  | .statements, word => ∃ stmts, Eventually fun room => Statements (Within room) word stmts
  | .statement, word | .letStatement, word | .varStatement, word | .assignment, word =>
    ∃ stmts, Eventually fun room => Statement (Within room) word stmts
  | .bindings, word =>
    ∃ stmts, Eventually fun room => Series .itemSeparator false (Binding (Within room)) word stmts
  | .binding, word => ∃ stmts, Eventually fun room => Binding (Within room) word stmts
  | .body, word | .block, word =>
    ∃ expr, Eventually fun room => PhraseOf (Within room) .body word expr
  | .expr, word | .lambda, word =>
    ∃ expr, Eventually fun room => Expression (Within room) word expr
  | .binary, word =>
    ∃ first chain, word = first ++ chainWord chain ∧ Applies first ∧ Chained chain
  | .application, word => Applies word
  | .arguments, word => ∃ exprs, Eventually fun room => Arguments (Within room) word exprs
  | .indexed, word => ∃ expr, Eventually fun room => Indexed (Within room) word expr
  | .atom, word => ∃ expr, Eventually fun room => Atom (Within room) word expr
  | .elements, word =>
    ∃ exprs, Eventually fun room => Series .comma true (Element (Within room)) word exprs
  | .entries, word =>
    ∃ entries, Eventually fun room => Series .comma true (MapEntry (Within room)) word entries
  | .entry, word => ∃ entries, Eventually fun room => MapEntry (Within room) word entries

/-- One more item in front of a series. -/
theorem Series.cons
    {α : Type} {separator : Mark} {trailing : Bool} {item : Word → List α → Prop} {rest : Word}
    {items others : List α}
    (first : item word items)
    (series : Series separator trailing item rest others) :
    Series separator trailing item (word ++ .mark separator :: rest) (items ++ others) :=
  .intro first (.of_series series)

/-- One more index behind the others. -/
theorem Indices.snoc
    {inner : Phrase → Word → Expr → Prop} {target key : Expr} {keyWord : Word}
    (indices : Indices inner target word expr)
    (derived : inner .expression keyWord key) :
    Indices inner target (word ++ .indexBracket :: (keyWord ++ [Terminal.mark .closeBracket]))
      (.index .nowhere expr key) := by
  induction indices with
  | done => exact .more derived .done
  | more first _ hypothesis =>
    have longer := Indices.more first hypothesis
    simpa using longer

/-- One more index behind an indexed atom. -/
theorem Indexed.snoc
    {inner : Phrase → Word → Expr → Prop} {keyWord : Word} {key : Expr}
    (indexed : Indexed inner word expr)
    (derived : inner .expression keyWord key) :
    Indexed inner (word ++ .indexBracket :: (keyWord ++ [Terminal.mark .closeBracket]))
      (.index .nowhere expr key) := by
  cases indexed with
  | intro atom indices =>
    rw [List.append_assoc]
    exact .intro atom (indices.snoc derived)

/-- A body has a tree in all rooms that are large enough. -/
theorem Realised.within_body (realised : Realised .body word) :
    ∃ expr, Eventually fun room => Within room .body word expr := by
  obtain ⟨expr, eventually⟩ := realised
  exact ⟨expr, eventually.within⟩

/-- An expression has a tree in all rooms that are large enough. -/
theorem Realised.within_expr (realised : Realised .expr word) :
    ∃ expr, Eventually fun room => Within room .expression word expr := by
  obtain ⟨expr, eventually⟩ := realised
  exact ⟨expr, .within (eventually.map fun _ expression => .expression expression)⟩

/-- A chain that has a tree is an expression. -/
theorem Realised.of_chain (realised : Realised .binary word) :
    Realised .expr word := by
  obtain ⟨first, chain, rfl, ⟨left, applied⟩, chained⟩ := realised
  obtain ⟨taken, rest, expr, rfl, looser, operators⟩ := exists_operators 0 left chain chained
  -- No precedence is below zero, so the climbing takes the whole chain.
  have whole : rest = [] := by
    match rest with
    | [] => rfl
    | (operator, word) :: rest =>
      have isOperator := (chained (operator, word) (by simp)).1
      obtain ⟨precedence, isOperator⟩ := Option.isSome_iff_exists.mp isOperator
      cases looser (.mark operator) rfl precedence isOperator
  subst whole
  rw [List.append_nil]
  exact ⟨expr, applied.map₂ operators fun _ first further => .operand (.intro first further)⟩

/-- A derived word has a tree. -/
theorem Derives.realised {kind : Nonterminal} (derives : Derives kind word) :
    Realised kind word := by
  induction derives with
  | emptyProgram => exact ⟨_, .const fun _ => .empty⟩
  | program _ statements =>
    obtain ⟨stmts, eventually⟩ := statements
    exact ⟨stmts, eventually.map fun _ => .statements⟩
  | lastStatement _ statement =>
    obtain ⟨stmts, eventually⟩ := statement
    exact ⟨stmts, eventually.map fun _ => .single⟩
  | moreStatements _ _ statement statements =>
    obtain ⟨stmts, eventually⟩ := statement
    obtain ⟨others, eventuallyOthers⟩ := statements
    exact ⟨stmts ++ others, eventually.map₂ eventuallyOthers fun _ => .cons⟩
  | letStatement _ realised
  | varStatement _ realised
  | assignmentStatement _ realised
  | blockBody _ realised
  | lambdaExpr _ realised => exact realised
  | exprStatement _ realised =>
    obtain ⟨expr, eventually⟩ := realised
    exact ⟨_, eventually.map fun _ => .expression⟩
  | letOne _ realised =>
    obtain ⟨stmts, eventually⟩ := realised
    exact ⟨stmts, eventually.map fun _ => .binding⟩
  | letGroup _ realised =>
    obtain ⟨stmts, eventually⟩ := realised
    exact ⟨stmts, eventually.map fun _ => .bindings⟩
  | lastBinding _ realised =>
    obtain ⟨stmts, eventually⟩ := realised
    exact ⟨stmts, eventually.map fun _ => .single⟩
  | moreBindings _ _ binding bindings =>
    obtain ⟨stmts, eventually⟩ := binding
    obtain ⟨others, eventuallyOthers⟩ := bindings
    exact ⟨stmts ++ others, eventually.map₂ eventuallyOthers fun _ => .cons⟩
  | binding distinct _ body =>
    obtain ⟨expr, eventually⟩ := body.within_body
    exact ⟨_, eventually.map fun _ => .intro distinct⟩
  | mutable _ body =>
    obtain ⟨expr, eventually⟩ := body.within_body
    exact ⟨_, eventually.map fun _ => .mutable⟩
  | assignment _ body =>
    obtain ⟨expr, eventually⟩ := body.within_body
    exact ⟨_, eventually.map fun _ => .assignment⟩
  | exprBody _ realised =>
    obtain ⟨expr, eventually⟩ := realised
    exact ⟨expr, eventually.map fun _ => .body⟩
  | block _ statements =>
    obtain ⟨stmts, eventually⟩ := statements
    exact ⟨_, eventually.map fun _ => .block⟩
  | binaryExpr _ realised => exact realised.of_chain
  | lambda distinct _ body =>
    obtain ⟨expr, eventually⟩ := body.within_body
    exact ⟨_, eventually.map fun _ => .function distinct⟩
  | @lastOperand word _ application => exact ⟨word, [], by simp [chainWord], application, nofun⟩
  | @operator word _ operator _ isOperator _ application binary =>
    obtain ⟨first, chain, rfl, applies, chained⟩ := binary
    refine ⟨word, (operator, first) :: chain, by simp [chainWord], application, ?_⟩
    rintro link (_ | ⟨_, member⟩)
    · exact ⟨isOperator, applies⟩
    · exact chained link member
  | emptyCall _ indexed =>
    obtain ⟨expr, eventually⟩ := indexed
    exact ⟨_, eventually.map fun _ => .emptyCall⟩
  | application _ _ indexed arguments =>
    obtain ⟨expr, eventually⟩ := indexed
    obtain ⟨exprs, eventuallyArguments⟩ := arguments
    by_cases alone : exprs = []
    · refine ⟨expr, eventually.map₂ eventuallyArguments fun room callee none => ?_⟩
      subst alone
      cases none with
      | done => exact List.append_nil _ ▸ .alone callee
    · exact ⟨_, eventually.map₂ eventuallyArguments fun _ callee more =>
        .call callee more alone⟩
  | noArgument => exact ⟨[], .const fun _ => .done⟩
  | argument _ _ indexed arguments =>
    obtain ⟨expr, eventually⟩ := indexed
    obtain ⟨exprs, eventuallyArguments⟩ := arguments
    exact ⟨expr :: exprs, eventually.map₂ eventuallyArguments fun _ => .more⟩
  | atom _ atom =>
    obtain ⟨expr, eventually⟩ := atom
    exact ⟨expr, eventually.map fun _ => Atom.indexed⟩
  | index _ _ indexed key =>
    obtain ⟨expr, eventually⟩ := indexed
    obtain ⟨keyExpr, eventuallyKey⟩ := key.within_expr
    exact ⟨.index .nowhere expr keyExpr, eventually.map₂ eventuallyKey fun _ => .snoc⟩
  | @literal symbol isLiteral =>
    obtain ⟨expr, isLeaf⟩ : ∃ expr, symbol.leaf? = some expr := by
      cases symbol with
      | mark => cases isLiteral
      | _ => exact ⟨_, rfl⟩
    exact ⟨expr, .const fun _ => .leaf isLeaf⟩
  | name => exact ⟨_, .const fun _ => .leaf rfl⟩
  | group _ realised =>
    obtain ⟨expr, eventually⟩ := realised.within_expr
    exact ⟨expr, eventually.map fun _ => .group⟩
  | emptyArray => exact ⟨_, .const fun _ => .emptyArray⟩
  | array _ realised =>
    obtain ⟨exprs, eventually⟩ := realised
    exact ⟨_, eventually.map fun _ => .array⟩
  | set _ realised =>
    obtain ⟨exprs, eventually⟩ := realised
    exact ⟨_, eventually.map fun _ => .set⟩
  | map _ realised =>
    obtain ⟨entries, eventually⟩ := realised
    exact ⟨_, eventually.map fun _ => .map⟩
  | lastElement _ realised =>
    obtain ⟨expr, eventually⟩ := realised.within_expr
    exact ⟨_, eventually.map fun _ derived => .single (.intro derived)⟩
  | trailingElement _ realised =>
    obtain ⟨expr, eventually⟩ := realised.within_expr
    exact ⟨_, eventually.map fun _ derived => .intro (.intro derived) (.trailing rfl)⟩
  | moreElements _ _ realised others =>
    obtain ⟨expr, eventually⟩ := realised.within_expr
    obtain ⟨exprs, eventuallyOthers⟩ := others
    exact ⟨_, eventually.map₂ eventuallyOthers fun _ derived more => .cons (.intro derived) more⟩
  | lastEntry _ realised =>
    obtain ⟨entries, eventually⟩ := realised
    exact ⟨entries, eventually.map fun _ => .single⟩
  | trailingEntry _ realised =>
    obtain ⟨entries, eventually⟩ := realised
    exact ⟨_, eventually.map fun _ derived => .intro derived (.trailing rfl)⟩
  | moreEntries _ _ realised others =>
    obtain ⟨entries, eventually⟩ := realised
    obtain ⟨more, eventuallyOthers⟩ := others
    exact ⟨_, eventually.map₂ eventuallyOthers fun _ => .cons⟩
  | namedEntry _ realised =>
    obtain ⟨expr, eventually⟩ := realised.within_expr
    exact ⟨_, eventually.map fun _ => .named⟩
  | @keyedEntry keyWord word _ _ key value =>
    obtain ⟨keyExpr, eventuallyKey⟩ := key.within_expr
    obtain ⟨expr, eventually⟩ := value.within_expr
    by_cases isName : ∃ name, keyWord = [.name name]
    · obtain ⟨name, rfl⟩ := isName
      exact ⟨_, eventually.map fun _ => .named⟩
    · exact ⟨_, eventuallyKey.map₂ eventually fun _ =>
        .keyed fun name same => isName ⟨name, same⟩⟩

end Grammar

open Grammar Reading

/-- A token list is read as a program exactly if the grammar derives its terminals within the
nesting room; and if it does not fail for nesting too deeply, exactly if the plain grammar
derives them. -/
theorem Program.ofTokens_ok_iff_derives
    {tokens : List Token}
    (endsOnce : EndsOnce tokens) :
    ((∃ program, Program.ofTokens tokens = .ok program) ↔
      ∃ stmts, ProgramOf (Within nestingRoom) (terminals tokens) stmts) ∧
    ((∀ fault, Program.ofTokens tokens = .error fault → ¬ TooDeep fault) →
      ((∃ program, Program.ofTokens tokens = .ok program) ↔
        Derives .program (terminals tokens))) := by
  constructor
  · constructor
    · rintro ⟨program, read⟩
      exact ⟨_, derived_of_ofTokens endsOnce read⟩
    · rintro ⟨stmts, derived⟩
      rcases ofTokens_of_derived endsOnce derived with ⟨program, read, -⟩ | ⟨less, -⟩
      · exact ⟨program, read⟩
      · exact (Nat.lt_irrefl _ less).elim
  · intro notTooDeep
    constructor
    · rintro ⟨program, read⟩
      exact (derived_of_ofTokens endsOnce read).derives Within.derives
    · intro derives
      obtain ⟨stmts, room, always⟩ := derives.realised
      rcases ofTokens_of_derived endsOnce (always room (Nat.le_refl room)) with
        ⟨program, read, -⟩ | ⟨-, fault, failed, tooDeep⟩
      · exact ⟨program, read⟩
      · exact (notTooDeep fault failed tooDeep).elim

/-- The tokens of `f xs[0]`. -/
def indexedArgument : List Token :=
  let placed (symbol : Symbol) (start stop : Nat) : Token :=
    ⟨symbol, [], ⟨none, ⟨1, start + 1, start⟩, ⟨1, stop + 1, stop⟩⟩⟩
  [placed (.identifier "f") 0 1, placed (.identifier "xs") 2 4, placed (.mark .openBracket) 4 5,
   placed (.int 0) 5 6, placed (.mark .closeBracket) 6 7, placed (.mark .endOfInput) 7 7]

/-- The index belongs to the argument. -/
theorem Program.ofTokens_ok_iff_derives_indexedArgument :
    EndsOnce indexedArgument ∧
      (∀ fault, Program.ofTokens indexedArgument = .error fault → ¬ TooDeep fault) ∧
      terminals indexedArgument =
        [.name "f", .name "xs", .indexBracket, .symbol (.int 0), .mark .closeBracket,
         .mark .endOfInput] ∧
      Derives .program (terminals indexedArgument) := by
  have endsOnce : EndsOnce indexedArgument :=
    ⟨indexedArgument.dropLast, _, rfl, rfl, by decide⟩
  have read : ∃ program, Program.ofTokens indexedArgument = .ok program := ⟨_, rfl⟩
  have notTooDeep : ∀ fault, Program.ofTokens indexedArgument = .error fault → ¬ TooDeep fault := by
    intro fault failed
    obtain ⟨program, read⟩ := read
    cases read.symm.trans failed
  exact ⟨endsOnce, notTooDeep, rfl,
    ((Program.ofTokens_ok_iff_derives endsOnce).2 notTooDeep).mp read⟩

end Offside
