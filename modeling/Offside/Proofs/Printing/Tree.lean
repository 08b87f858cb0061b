import Offside.Proofs.Printing.Spelling
import Offside.Proofs.Syntax.Acceptance

namespace Offside

/-!
# Words of trees

Every tree that can be written has a word that the grammar derives as this tree.  The word has
parentheses only where the tree would be read differently without them, and around a function
that ends in a block where a comma or a colon follows.
-/

open Grammar

/-! ## Where parentheses stand -/

/-- A word, in parentheses where they are needed. -/
def grouped (needed : Bool) (word : Word) : Word :=
  if needed then .mark .openParen :: (word ++ [.mark .closeParen]) else word

/-- The levels of nesting of a word in parentheses where they are needed. -/
def groupedLevels (needed : Bool) (levels : Nat) : Nat :=
  if needed then levels + 6 else levels

/-- Words with a separator between each two. -/
def joined (separator : Mark) : List Word → Word
  | [] => []
  | [word] => word
  | word :: words => word ++ .mark separator :: joined separator words

/-- The precedence of an operator. -/
def TokenKind.strength (operator : TokenKind) : Nat :=
  operator.precedence?.getD 0

/-- The left operand of an operator needs no parentheses if it is at least as strong. -/
def TokenKind.leftStrength (operator : TokenKind) : Nat :=
  if operator.groupsRight then operator.strength + 1 else operator.strength

/-- The right operand of an operator needs no parentheses if it is at least as strong. -/
def TokenKind.rightStrength (operator : TokenKind) : Nat :=
  operandLevel operator operator.strength

namespace Expr

/-- How strongly an expression holds together: a function least, then operators by their
precedence, calls, and expressions without parts or with an index. -/
def strength : Expr → Nat
  | .function _ _ _ | .block _ _ => 0
  | .binary _ _ operator _ => operator.strength
  | .call _ _ _ => 6
  | _ => 7

/-- Whether a block ends where an expression ends. -/
def endsInBlock : Expr → Bool
  | .function _ _ body => body.endsInBlock
  | .block _ _ => true
  | _ => false

/-- Whether an expression behind an operand needs parentheses: what is no single argument, and
what starts with a sign. -/
def isLoose : Expr → Bool
  | .int _ value => value < 0
  | .index _ target _ => 7 ≤ target.strength && target.isLoose
  | .binary _ _ _ _ | .function _ _ _ | .call _ _ _ | .block _ _ => true
  | _ => false

/-- Whether an element of a collection needs parentheses: a comma ends no block. -/
def isLooseElement (followed : Bool) (element : Expr) : Bool :=
  followed && element.endsInBlock

/-- Whether an expression before a colon needs parentheses: a lone name would be a string, and
a colon ends no block. -/
def isLooseKey : Expr → Bool
  | .identifier _ _ => true
  | key => key.endsInBlock

end Expr

/-! ## Words -/

/-- The word of an operator. -/
def TokenKind.word : TokenKind → Word
  | .mark fixed => [.mark fixed]
  | _ => []

mutual

/-- The word of an expression. -/
def Expr.word : Expr → Word
  | .int _ value => [.symbol (.int value)]
  | .float _ value => [.symbol (.float value)]
  | .string _ value => [.symbol (.string value)]
  | .char _ value => [.symbol (.char value)]
  | .bool _ value => [.symbol (.bool value)]
  | .identifier _ name => [.name name]
  | .array _ elements =>
    .mark .openBracket ::
      (joined .comma (Expr.elementWords elements) ++ [.mark .closeBracket])
  | .set _ elements =>
    .mark .openBrace :: (joined .comma (Expr.elementWords elements) ++ [.mark .closeBrace])
  | .map _ entries =>
    .mark .openBrace :: (joined .comma (Entry.words entries) ++ [.mark .closeBrace])
  | .binary _ left operator right =>
    grouped (left.strength < operator.leftStrength) left.word ++
      (operator.word ++ grouped (right.strength < operator.rightStrength) right.word)
  | .function _ parameters body =>
    .mark .funWord :: (parameters.map .name ++ .mark .arrow :: body.word)
  | .call _ callee arguments =>
    grouped (callee.strength < 7) callee.word ++
      if arguments.isEmpty then [.mark .openParen, .mark .closeParen]
      else Expr.argumentsWord arguments
  | .index _ target key =>
    grouped (target.strength < 7) target.word ++
      .indexBracket :: (key.word ++ [.mark .closeBracket])
  | .block _ statements =>
    .mark .blockStart ::
      (joined .itemSeparator (Stmt.words statements) ++ [.mark .blockEnd])

/-- The words of the elements of an array or a set. -/
def Expr.elementWords : List Expr → List Word
  | [] => []
  | element :: elements =>
    grouped (element.isLooseElement !elements.isEmpty) element.word ::
      Expr.elementWords elements

/-- The word of the arguments of a call. -/
def Expr.argumentsWord : List Expr → Word
  | [] => []
  | argument :: arguments =>
    grouped argument.isLoose argument.word ++ Expr.argumentsWord arguments

/-- The words of the entries of a map. -/
def Entry.words : List Entry → List Word
  | [] => []
  | .pair _ key value :: entries =>
    (grouped key.isLooseKey key.word ++
      .mark .colon :: grouped (value.isLooseElement !entries.isEmpty) value.word) ::
        Entry.words entries

/-- The word of a statement; a function is bound with its parameters. -/
def Stmt.word : Stmt → Word
  | .binding _ false name (.function _ (parameter :: parameters) body) =>
    .mark .letWord :: .name name ::
      ((parameter :: parameters).map .name ++ .mark .assign :: body.word)
  | .binding _ mutable name value =>
    .mark (if mutable then .varWord else .letWord) :: .name name :: .mark .assign :: value.word
  | .assignment _ target value => .name target :: .mark .assign :: value.word
  | .expression _ value => value.word

/-- The words of statements. -/
def Stmt.words : List Stmt → List Word
  | [] => []
  | stmt :: stmts => stmt.word :: Stmt.words stmts

end

/-! ## Trees that can be written -/

mutual

/-- Whether an expression can be written; a block only as a body. -/
def Expr.writable (asBody : Bool) : Expr → Bool
  | .int _ value => (Symbol.int value).writable
  | .float _ _ => false
  | .string _ _ | .char _ _ | .bool _ _ => true
  | .identifier _ name => name.isName
  | .array _ elements => Expr.writableAll elements
  | .set _ elements => !elements.isEmpty && Expr.writableAll elements
  | .map _ entries => !entries.isEmpty && Entry.writableAll entries
  | .binary _ left operator right =>
    operator.precedence?.isSome && left.writable false && right.writable false
  | .function _ parameters body =>
    parameters.all (·.isName) && decide parameters.Nodup && body.writable true
  | .call _ callee arguments => callee.writable false && Expr.writableAll arguments
  | .index _ target key => target.writable false && key.writable false
  | .block _ statements => asBody && !statements.isEmpty && Stmt.writableAll statements

/-- Whether expressions can be written. -/
def Expr.writableAll : List Expr → Bool
  | [] => true
  | expr :: exprs => expr.writable false && Expr.writableAll exprs

/-- Whether map entries can be written. -/
def Entry.writableAll : List Entry → Bool
  | [] => true
  | .pair _ key value :: entries =>
    key.writable false && value.writable false && Entry.writableAll entries

/-- Whether a statement can be written. -/
def Stmt.writable : Stmt → Bool
  | .binding _ _ name value => name.isName && value.writable true
  | .assignment _ target value => target.isName && value.writable true
  | .expression _ value => value.writable false

/-- Whether statements can be written. -/
def Stmt.writableAll : List Stmt → Bool
  | [] => true
  | stmt :: stmts => stmt.writable && Stmt.writableAll stmts

end

/-! ## Levels of nesting -/

mutual

/-- The levels of nesting inside the word of an expression. -/
def Expr.levels : Expr → Nat
  | .array _ elements | .set _ elements => Expr.elementLevels elements
  | .map _ entries => Entry.levels entries
  | .binary _ left operator right =>
    max (groupedLevels (left.strength < operator.leftStrength) left.levels)
      (groupedLevels (right.strength < operator.rightStrength) right.levels + 1)
  | .function _ _ body => body.levels + 6
  | .call _ callee arguments =>
    max (groupedLevels (callee.strength < 7) callee.levels) (Expr.argumentLevels arguments)
  | .index _ target key =>
    max (groupedLevels (target.strength < 7) target.levels) (key.levels + 6)
  | .block _ statements => Stmt.levelsAll statements
  | _ => 0

/-- The levels of nesting of the elements of an array or a set. -/
def Expr.elementLevels : List Expr → Nat
  | [] => 0
  | element :: elements =>
    max (groupedLevels (element.isLooseElement !elements.isEmpty) element.levels + 6)
      (Expr.elementLevels elements)

/-- The levels of nesting of the arguments of a call. -/
def Expr.argumentLevels : List Expr → Nat
  | [] => 0
  | argument :: arguments =>
    max (groupedLevels argument.isLoose argument.levels) (Expr.argumentLevels arguments)

/-- The levels of nesting of the entries of a map. -/
def Entry.levels : List Entry → Nat
  | [] => 0
  | .pair _ key value :: entries =>
    max
      (max (groupedLevels key.isLooseKey key.levels)
        (groupedLevels (value.isLooseElement !entries.isEmpty) value.levels) + 6)
      (Entry.levels entries)

/-- The levels of nesting inside the word of a statement. -/
def Stmt.levels : Stmt → Nat
  | .binding _ false _ (.function _ (_ :: _) body) => body.levels + 6
  | .binding _ _ _ value | .assignment _ _ value => value.levels + 6
  | .expression _ value => value.levels

/-- The levels of nesting inside the words of statements. -/
def Stmt.levelsAll : List Stmt → Nat
  | [] => 0
  | stmt :: stmts => max stmt.levels (Stmt.levelsAll stmts)

end

/-! ## Induction over trees -/

/-- Whether an expression has no parts. -/
def Expr.isLeaf : Expr → Bool
  | .int _ _ | .float _ _ | .string _ _ | .char _ _ | .bool _ _ | .identifier _ _ => true
  | _ => false

/-- The steps of an induction over trees.  What holds of the value of a binding is known of the
body of that value, too. -/
structure TreeSteps (onExpr : Expr → Prop) (onStmt : Stmt → Prop) : Prop where
  leaf : ∀ expr, expr.isLeaf = true → onExpr expr
  array : ∀ span elements, (∀ element ∈ elements, onExpr element) → onExpr (.array span elements)
  set : ∀ span elements, (∀ element ∈ elements, onExpr element) → onExpr (.set span elements)
  map : ∀ span entries,
    (∀ place key value, Entry.pair place key value ∈ entries → onExpr key ∧ onExpr value) →
      onExpr (.map span entries)
  binary : ∀ span left operator right, onExpr left → onExpr right →
    onExpr (.binary span left operator right)
  function : ∀ span parameters body, onExpr body → onExpr (.function span parameters body)
  call : ∀ span callee arguments, onExpr callee → (∀ argument ∈ arguments, onExpr argument) →
    onExpr (.call span callee arguments)
  index : ∀ span target key, onExpr target → onExpr key → onExpr (.index span target key)
  block : ∀ span statements, (∀ stmt ∈ statements, onStmt stmt) → onExpr (.block span statements)
  binding : ∀ span mutable name value, onExpr value →
    (∀ place parameters body, value = .function place parameters body → onExpr body) →
      onStmt (.binding span mutable name value)
  assignment : ∀ span target value, onExpr value → onStmt (.assignment span target value)
  expression : ∀ span value, onExpr value → onStmt (.expression span value)

mutual

theorem TreeSteps.expr
    {onExpr : Expr → Prop} {onStmt : Stmt → Prop}
    (steps : TreeSteps onExpr onStmt) :
    ∀ expr, onExpr expr
  | .int _ _ | .float _ _ | .string _ _ | .char _ _ | .bool _ _ | .identifier _ _ =>
    steps.leaf _ rfl
  | .array span elements => steps.array span elements fun element _ => steps.expr element
  | .set span elements => steps.set span elements fun element _ => steps.expr element
  | .map span entries =>
    steps.map span entries fun _ key value _member => ⟨steps.expr key, steps.expr value⟩
  | .binary span left operator right =>
    steps.binary span left operator right (steps.expr left) (steps.expr right)
  | .function span parameters body => steps.function span parameters body (steps.expr body)
  | .call span callee arguments =>
    steps.call span callee arguments (steps.expr callee) fun argument _ => steps.expr argument
  | .index span target key => steps.index span target key (steps.expr target) (steps.expr key)
  | .block span statements => steps.block span statements fun stmt _ => steps.stmt stmt
termination_by expr => sizeOf expr
decreasing_by
  any_goals decreasing_tactic
  all_goals
    have smaller := List.sizeOf_lt_of_mem _member
    simp only [Entry.pair.sizeOf_spec, Expr.map.sizeOf_spec] at smaller ⊢
    omega

theorem TreeSteps.stmt
    {onExpr : Expr → Prop} {onStmt : Stmt → Prop}
    (steps : TreeSteps onExpr onStmt) :
    ∀ stmt, onStmt stmt
  | .binding span mutable name value =>
    steps.binding span mutable name value (steps.expr value)
      fun _ _ body _ => steps.expr body
  | .assignment span target value => steps.assignment span target value (steps.expr value)
  | .expression span value => steps.expression span value (steps.expr value)
termination_by stmt => sizeOf stmt

end

end Offside
