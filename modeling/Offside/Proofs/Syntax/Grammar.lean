import Offside.Proofs.Syntax.Bare
import Offside.Syntax.Phrase

namespace Offside

/-!
# The grammar

The grammar sees the symbols of a token list, and of a `[` whether it stands right behind
an operand.  Its rules say which bare tree a word of such terminals is.

The rules come in layers that take the relation `inner` of the phrases inside them, so that
`Within` can count the levels of nesting.  Where the parts of a word are written one after
another, a rule takes the first part and what follows it.
-/

/-- What the grammar sees of a token: its symbol, or a `[` right behind an operand. -/
inductive Terminal where
  | symbol (symbol : Symbol)
  | indexBracket
deriving Repr, DecidableEq

namespace Terminal

/-- The terminal of a mark. -/
abbrev mark (mark : Mark) : Terminal :=
  .symbol (.mark mark)

/-- The terminal of a name. -/
abbrev name (name : Text) : Terminal :=
  .symbol (.identifier name)

/-- The symbol of a terminal. -/
def toSymbol : Terminal → Symbol
  | .symbol shown => shown
  | .indexBracket => .mark .openBracket

/-- Whether a terminal can be the first of an atom. -/
def opensAtom : Terminal → Bool
  | .symbol shown => shown.startsAtom
  | .indexBracket => false

/-- Whether a terminal can be the first of an expression. -/
def opensExpr (terminal : Terminal) : Bool :=
  terminal.opensAtom || terminal == .mark .funWord

/-- The precedence of a terminal that is a binary operator. -/
def precedence? (terminal : Terminal) : Option Nat :=
  terminal.toSymbol.kind.precedence?

/-- Whether an operand goes on with a terminal: an index, an argument or an operator. -/
def prolongs (terminal : Terminal) : Bool :=
  terminal.toSymbol.startsAtom || terminal.precedence?.isSome

/-- The terminal of a token behind another one. -/
def ofToken (before : Option Token) (token : Token) : Terminal :=
  if token.isMark .openBracket &&
      before.any fun last =>
        last.symbol.endsOperand && last.span.stop.offset == token.span.start.offset then
    .indexBracket
  else .symbol token.symbol

end Terminal

/-- A text as the grammar sees it. -/
abbrev Word :=
  List Terminal

/-- The terminals of a token list behind a token. -/
def terminalsAfter : Option Token → List Token → Word
  | _, [] => []
  | before, token :: rest => .ofToken before token :: terminalsAfter (some token) rest

/-- The terminals of a token list. -/
def terminals (tokens : List Token) : Word :=
  terminalsAfter none tokens

/-- The bare tree of a symbol that is an atom of its own. -/
def Symbol.leaf? : Symbol → Option Expr
  | .int value => some (.int .nowhere value)
  | .float value => some (.float .nowhere value)
  | .string value | .rawString value => some (.string .nowhere value)
  | .char value => some (.char .nowhere value)
  | .bool value => some (.bool .nowhere value)
  | .identifier name => some (.identifier .nowhere name)
  | .mark _ => none

namespace Grammar

/-- Further items, each behind a separator; with `trailing` also a last separator. -/
inductive Rest {α : Type} (separator : Mark) (trailing : Bool) (item : Word → List α → Prop) :
    Word → List α → Prop where
  | done :
      Rest separator trailing item [] []
  | trailing :
      trailing = true →
      Rest separator trailing item [.mark separator] []
  | more
      {word rest : Word} {items others : List α} :
      item word items →
      Rest separator trailing item rest others →
      Rest separator trailing item (.mark separator :: (word ++ rest)) (items ++ others)

/-- One or more items with separators between them. -/
inductive Series {α : Type} (separator : Mark) (trailing : Bool)
    (item : Word → List α → Prop) : Word → List α → Prop where
  | intro
      {word rest : Word} {items others : List α} :
      item word items →
      Rest separator trailing item rest others →
      Series separator trailing item (word ++ rest) (items ++ others)

section

variable {α : Type} {separator : Mark} {trailing : Bool} {item : Word → List α → Prop}
  {word : Word} {items : List α}

/-- An item alone is a series. -/
theorem Series.single (first : item word items) : Series separator trailing item word items := by
  have series : Series separator trailing item (word ++ []) (items ++ []) := .intro first .done
  simpa using series

/-- A series behind a separator goes on with another one. -/
theorem Rest.of_series (series : Series separator trailing item word items) :
    Rest separator trailing item (.mark separator :: word) items := by
  cases series with
  | intro first others => exact .more first others

end

/-- What a binding with parameters binds. -/
def bindingValue (parameters : List Text) (body : Expr) : Expr :=
  if parameters.isEmpty then body else .function .nowhere parameters body

/-- The right operand of an operator holds operators of at least this precedence. -/
def operandLevel (operator : TokenKind) (precedence : Nat) : Nat :=
  if operator.groupsRight then precedence else precedence + 1

/-- A word does not start with an operator of at least a precedence. -/
def BindsLooser (level : Nat) (word : Word) : Prop :=
  ∀ terminal ∈ word.head?, ∀ precedence ∈ terminal.precedence?, precedence < level

/-- What starts with no tight operator does not start with one when it is cut off earlier. -/
theorem BindsLooser.of_append
    {level : Nat} {word rest : Word}
    (looser : BindsLooser level (word ++ rest)) :
    BindsLooser level word := by
  cases word with
  | nil => exact fun _ none => nomatch none
  | cons => exact looser

section

variable (inner : Phrase → Word → Expr → Prop)

/-- The binding of a name, from the name on. -/
inductive Binding : Word → List Stmt → Prop where
  | intro
      {name : Text} {parameters : List Text} {word : Word} {body : Expr} :
      parameters.Nodup →
      inner .body word body →
      Binding (.name name :: (parameters.map .name ++ .mark .assign :: word))
        [.binding .nowhere false name (bindingValue parameters body)]

/-- An element of an array or a set. -/
inductive Element : Word → List Expr → Prop where
  | intro
      {word : Word} {expr : Expr} :
      inner .expression word expr →
      Element word [expr]

/-- An entry of a map; a lone name is a key that stands for itself. -/
inductive MapEntry : Word → List Entry → Prop where
  | named
      {name : Text} {word : Word} {value : Expr} :
      inner .expression word value →
      MapEntry (.name name :: .mark .colon :: word)
        [.pair .nowhere (.string .nowhere name) value]
  | keyed
      {keyWord word : Word} {key value : Expr} :
      (∀ name, keyWord ≠ [.name name]) →
      inner .expression keyWord key →
      inner .expression word value →
      MapEntry (keyWord ++ .mark .colon :: word) [.pair .nowhere key value]

/-- A literal, a name or a bracketed phrase. -/
inductive Atom : Word → Expr → Prop where
  | leaf
      {symbol : Symbol} {expr : Expr} :
      symbol.leaf? = some expr →
      Atom [.symbol symbol] expr
  | group
      {word : Word} {expr : Expr} :
      inner .expression word expr →
      Atom (.mark .openParen :: (word ++ [.mark .closeParen])) expr
  | emptyArray :
      Atom [.mark .openBracket, .mark .closeBracket] (.array .nowhere [])
  | array
      {word : Word} {elements : List Expr} :
      Series .comma true (Element inner) word elements →
      Atom (.mark .openBracket :: (word ++ [.mark .closeBracket])) (.array .nowhere elements)
  | set
      {word : Word} {elements : List Expr} :
      Series .comma true (Element inner) word elements →
      Atom (.mark .openBrace :: (word ++ [.mark .closeBrace])) (.set .nowhere elements)
  | map
      {word : Word} {entries : List Entry} :
      Series .comma true (MapEntry inner) word entries →
      Atom (.mark .openBrace :: (word ++ [.mark .closeBrace])) (.map .nowhere entries)

/-- Indices behind a target, and what they make of it. -/
inductive Indices : Expr → Word → Expr → Prop where
  | done
      {target : Expr} :
      Indices target [] target
  | more
      {target key expr : Expr} {word rest : Word} :
      inner .expression word key →
      Indices (.index .nowhere target key) rest expr →
      Indices target (.indexBracket :: (word ++ .mark .closeBracket :: rest)) expr

/-- An atom with its indices. -/
inductive Indexed : Word → Expr → Prop where
  | intro
      {word rest : Word} {target expr : Expr} :
      Atom inner word target →
      Indices inner target rest expr →
      Indexed (word ++ rest) expr

/-- Arguments of a call. -/
inductive Arguments : Word → List Expr → Prop where
  | done :
      Arguments [] []
  | more
      {word rest : Word} {argument : Expr} {others : List Expr} :
      Indexed inner word argument →
      Arguments rest others →
      Arguments (word ++ rest) (argument :: others)

/-- A call, or its callee alone. -/
inductive Application : Word → Expr → Prop where
  | alone
      {word : Word} {expr : Expr} :
      Indexed inner word expr →
      Application word expr
  | emptyCall
      {word : Word} {callee : Expr} :
      Indexed inner word callee →
      Application (word ++ [.mark .openParen, .mark .closeParen]) (.call .nowhere callee [])
  | call
      {word rest : Word} {callee : Expr} {arguments : List Expr} :
      Indexed inner word callee →
      Arguments inner rest arguments →
      arguments ≠ [] →
      Application (word ++ rest) (.call .nowhere callee arguments)

/-- Operators of at least a precedence behind a left operand, and what they make of it. -/
inductive Operators (least : Nat) : Expr → Word → Expr → Prop where
  | done
      {left : Expr} :
      Operators least left [] left
  | more
      {left right expr : Expr} {operator : Mark} {precedence : Nat} {word rest : Word} :
      (TokenKind.mark operator).precedence? = some precedence →
      least ≤ precedence →
      inner (.operand (operandLevel (.mark operator) precedence)) word right →
      BindsLooser (operandLevel (.mark operator) precedence) rest →
      Operators least (.binary .nowhere left (.mark operator) right) rest expr →
      Operators least left (.mark operator :: (word ++ rest)) expr

/-- Applications joined by operators of at least a precedence. -/
inductive Operand (least : Nat) : Word → Expr → Prop where
  | intro
      {word rest : Word} {left expr : Expr} :
      Application inner word left →
      Operators inner least left rest expr →
      Operand least (word ++ rest) expr

/-- An expression. -/
inductive Expression : Word → Expr → Prop where
  | operand
      {word : Word} {expr : Expr} :
      Operand inner 0 word expr →
      Expression word expr
  | function
      {parameters : List Text} {word : Word} {body : Expr} :
      parameters.Nodup →
      inner .body word body →
      Expression (.mark .funWord :: (parameters.map .name ++ .mark .arrow :: word))
        (.function .nowhere parameters body)

/-- A statement; a group of bindings is several. -/
inductive Statement : Word → List Stmt → Prop where
  | binding
      {word : Word} {bindings : List Stmt} :
      Binding inner word bindings →
      Statement (.mark .letWord :: word) bindings
  | bindings
      {word : Word} {bindings : List Stmt} :
      Series .itemSeparator false (Binding inner) word bindings →
      Statement (.mark .letWord :: .mark .blockStart :: (word ++ [.mark .blockEnd])) bindings
  | mutable
      {name : Text} {word : Word} {body : Expr} :
      inner .body word body →
      Statement (.mark .varWord :: .name name :: .mark .assign :: word)
        [.binding .nowhere true name body]
  | assignment
      {name : Text} {word : Word} {body : Expr} :
      inner .body word body →
      Statement (.name name :: .mark .assign :: word) [.assignment .nowhere name body]
  | expression
      {word : Word} {expr : Expr} :
      Expression inner word expr →
      Statement word [.expression .nowhere expr]

/-- The statements of a block or a program. -/
abbrev Statements : Word → List Stmt → Prop :=
  Series .itemSeparator false (Statement inner)

/-- A phrase whose inner phrases are given. -/
inductive PhraseOf : Phrase → Word → Expr → Prop where
  | block
      {word : Word} {statements : List Stmt} :
      Statements inner word statements →
      PhraseOf .body (.mark .blockStart :: (word ++ [.mark .blockEnd]))
        (.block .nowhere statements)
  | body
      {word : Word} {expr : Expr} :
      Expression inner word expr →
      PhraseOf .body word expr
  | expression
      {word : Word} {expr : Expr} :
      Expression inner word expr →
      PhraseOf .expression word expr
  | operand
      {least : Nat} {word : Word} {expr : Expr} :
      Operand inner least word expr →
      PhraseOf (.operand least) word expr

/-- A program whose phrases are given. -/
inductive ProgramOf : Word → List Stmt → Prop where
  | empty :
      ProgramOf [.mark .endOfInput] []
  | statements
      {word : Word} {statements : List Stmt} :
      Statements inner word statements →
      ProgramOf (word ++ [.mark .endOfInput]) statements

end

/-- A phrase with so many levels of nesting at most. -/
def Within : Nat → Phrase → Word → Expr → Prop
  | room + 1, .operand least => PhraseOf (Within room) (.operand least)
  | room + 6, .body => PhraseOf (Within room) .body
  | room + 6, .expression => PhraseOf (Within room) .expression
  | _, _ => fun _ _ => False

/-- A phrase needs room for its own levels, and the phrases inside it fit in what is left. -/
theorem within_iff {room : Nat} {form : Phrase} {word : Word} {expr : Expr} :
    Within room form word expr ↔
      form.levels ≤ room ∧ PhraseOf (Within (room - form.levels)) form word expr := by
  match room, form with
  | 0, .operand _ => simp [Within, Phrase.levels]
  | room + 1, .operand _ => simp [Within, Phrase.levels]
  | 0, .body | 1, .body | 2, .body | 3, .body | 4, .body | 5, .body =>
    simp [Within, Phrase.levels]
  | 0, .expression | 1, .expression | 2, .expression | 3, .expression | 4, .expression
  | 5, .expression => simp [Within, Phrase.levels]
  | room + 6, .body => simp [Within, Phrase.levels]
  | room + 6, .expression => simp [Within, Phrase.levels]

section

variable {inner : Phrase → Word → Expr → Prop} {word : Word} {expr : Expr}

/-- An atom without indices. -/
theorem Atom.indexed (atom : Atom inner word expr) : Indexed inner word expr := by
  have indexed : Indexed inner (word ++ []) expr := .intro atom .done
  rwa [List.append_nil] at indexed

/-- An application without operators, whatever precedence they had to have. -/
theorem Application.operand (application : Application inner word expr) (least : Nat) :
    Operand inner least word expr := by
  have operand : Operand inner least (word ++ []) expr := .intro application .done
  rwa [List.append_nil] at operand

/-- An atom is an expression. -/
theorem Atom.expression (atom : Atom inner word expr) : Expression inner word expr :=
  .operand ((Application.alone atom.indexed).operand 0)

end

/-! ## How phrases start -/

/-- A word starts with a terminal of some kind. -/
def Starts (kind : Terminal → Bool) (word : Word) : Prop :=
  ∃ terminal rest, word = terminal :: rest ∧ kind terminal = true

/-- How a word starts does not depend on what stands behind it. -/
theorem Starts.append
    {kind : Terminal → Bool} {word : Word}
    (starts : Starts kind word)
    (rest : Word) :
    Starts kind (word ++ rest) := by
  obtain ⟨terminal, tail, rfl, holds⟩ := starts
  exact ⟨terminal, tail ++ rest, rfl, holds⟩

section

variable {inner : Phrase → Word → Expr → Prop} {word : Word} {expr : Expr}

/-- An atom starts as atoms do, and so does all that starts with one: with indices, with
arguments and with operators. -/
theorem Atom.starts (atom : Atom inner word expr) : Starts Terminal.opensAtom word := by
  cases atom with
  | @leaf symbol _ isLeaf =>
    refine ⟨.symbol symbol, [], rfl, ?_⟩
    cases symbol with
    | mark => cases isLeaf
    | _ => rfl
  | group
  | emptyArray
  | array
  | set
  | map => exact ⟨_, _, rfl, rfl⟩

theorem Indexed.starts (indexed : Indexed inner word expr) : Starts Terminal.opensAtom word := by
  cases indexed with
  | intro atom _ => exact atom.starts.append _

theorem Application.starts (application : Application inner word expr) :
    Starts Terminal.opensAtom word := by
  cases application with
  | alone indexed => exact indexed.starts
  | emptyCall indexed
  | call indexed => exact indexed.starts.append _

theorem Operand.starts {least : Nat} (operand : Operand inner least word expr) :
    Starts Terminal.opensAtom word := by
  cases operand with
  | intro application _ => exact application.starts.append _

/-- What can start an atom can start an expression. -/
theorem Starts.opensExpr (starts : Starts Terminal.opensAtom word) :
    Starts Terminal.opensExpr word := by
  obtain ⟨terminal, rest, rfl, opens⟩ := starts
  exact ⟨terminal, rest, rfl, by rw [Terminal.opensExpr, opens]; rfl⟩

/-- An expression starts with an atom or with `fun`. -/
theorem Expression.starts (expression : Expression inner word expr) :
    Starts Terminal.opensExpr word := by
  cases expression with
  | operand operand => exact operand.starts.opensExpr
  | function => exact ⟨_, _, rfl, rfl⟩

/-- No statement is empty. -/
theorem Statement.ne_nil {stmts : List Stmt} (statement : Statement inner word stmts) :
    word ≠ [] := by
  cases statement with
  | expression expression =>
    obtain ⟨terminal, rest, rfl, -⟩ := expression.starts
    exact nofun
  | binding
  | bindings
  | mutable
  | assignment => exact nofun

/-- Statements are not empty, since the first one is not. -/
theorem Statements.ne_nil {stmts : List Stmt} (statements : Statements inner word stmts) :
    word ≠ [] := by
  cases statements with
  | intro statement _ => exact fun none => statement.ne_nil (List.append_eq_nil_iff.mp none).1

/-- A phrase that is no body starts as an expression does; a body may be a block. -/
theorem Within.starts
    {room : Nat} {form : Phrase}
    (within : Within room form word expr)
    (noBody : form ≠ .body) :
    Starts Terminal.opensExpr word := by
  cases (within_iff.mp within).2 with
  | block
  | body => exact (noBody rfl).elim
  | expression expression => exact expression.starts
  | operand operand => exact operand.starts.opensExpr

/-- A word is empty or goes on with an operand. -/
def Prolongs (word : Word) : Prop :=
  ∀ terminal ∈ word.head?, terminal.prolongs = true

/-- Two words that prolong an operand prolong it together. -/
theorem Prolongs.append {rest : Word} (first : Prolongs word) (second : Prolongs rest) :
    Prolongs (word ++ rest) := by
  cases word with
  | nil => exact second
  | cons => exact first

/-- Indices go on with what they stand behind. -/
theorem Indices.prolongs {target : Expr} (indices : Indices inner target word expr) :
    Prolongs word := by
  cases indices with
  | done => exact fun _ none => nomatch none
  | more => exact fun _ same => Option.some.inj same ▸ rfl

/-- A word that starts as an atom goes on as an argument. -/
theorem Starts.prolongs (starts : Starts Terminal.opensAtom word) : Prolongs word := by
  obtain ⟨terminal, rest, rfl, opens⟩ := starts
  rintro _ ⟨⟩
  cases terminal with
  | symbol => exact Bool.or_eq_true_iff.mpr (.inl opens)
  | indexBracket => rfl

/-- Arguments go on with what they stand behind. -/
theorem Arguments.prolongs {arguments : List Expr} (derived : Arguments inner word arguments) :
    Prolongs word := by
  cases derived with
  | done => exact fun _ none => nomatch none
  | more indexed _ => exact (indexed.starts.append _).prolongs

/-- Operators go on with what they stand behind. -/
theorem Operators.prolongs
    {least : Nat} {left : Expr}
    (operators : Operators inner least left word expr) :
    Prolongs word := by
  cases operators with
  | done => exact fun _ none => nomatch none
  | more isOperator =>
    rintro _ ⟨⟩
    refine Bool.or_eq_true_iff.mpr (.inr ?_)
    exact (congrArg Option.isSome isOperator).trans rfl

/-- A name is a whole atom. -/
theorem Atom.eq_nil_of_name {name : Text} (atom : Atom inner (.name name :: word) expr) :
    word = [] := by
  cases atom
  rfl

/-- What is left of an indexed atom behind a name at its start prolongs the name. -/
theorem Indexed.prolongs_of_name {name : Text} (indexed : Indexed inner (.name name :: word) expr) :
    Prolongs word := by
  generalize whole : Terminal.name name :: word = text at indexed
  cases indexed with
  | intro atom indices =>
    obtain ⟨terminal, rest, rfl, -⟩ := atom.starts
    obtain ⟨rfl, rfl⟩ := List.cons.inj whole
    rw [atom.eq_nil_of_name]
    exact indices.prolongs

/-- The same holds of an application. -/
theorem Application.prolongs_of_name
    {name : Text}
    (application : Application inner (.name name :: word) expr) :
    Prolongs word := by
  generalize whole : Terminal.name name :: word = text at application
  cases application with
  | alone indexed =>
    subst whole
    exact indexed.prolongs_of_name
  | emptyCall indexed =>
    obtain ⟨terminal, rest, rfl, -⟩ := indexed.starts
    obtain ⟨rfl, rfl⟩ := List.cons.inj whole
    exact indexed.prolongs_of_name.append fun _ same => Option.some.inj same ▸ rfl
  | call indexed arguments _ =>
    obtain ⟨terminal, rest, rfl, -⟩ := indexed.starts
    obtain ⟨rfl, rfl⟩ := List.cons.inj whole
    exact indexed.prolongs_of_name.append arguments.prolongs

/-- What follows a name at the start of an expression is an index, an argument or an
operator; so a name before `=` or `:` starts none. -/
theorem Expression.prolongs_of_name
    {name : Text}
    (expression : Expression inner (.name name :: word) expr) :
    Prolongs word := by
  cases expression with
  | operand operand =>
    generalize whole : Terminal.name name :: word = text at operand
    cases operand with
    | intro application operators =>
      obtain ⟨terminal, rest, rfl, -⟩ := application.starts
      obtain ⟨rfl, rfl⟩ := List.cons.inj whole
      exact application.prolongs_of_name.append operators.prolongs

/-- A name at the start of an expression of any depth is prolonged by the rest of it. -/
theorem Within.prolongs_of_name
    {room : Nat} {name : Text}
    (within : Within room .expression (.name name :: word) expr) :
    Prolongs word := by
  cases (within_iff.mp within).2 with
  | expression expression => exact expression.prolongs_of_name

end

end Grammar

end Offside
