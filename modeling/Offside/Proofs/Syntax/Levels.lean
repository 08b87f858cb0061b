import Offside.Proofs.Syntax.Grammar

namespace Offside

/-!
# Room for nesting

The rules of the grammar use the phrases inside them as they are given.  So whatever is derived
from some phrases is derived from more of them, and a phrase fits into any room that is larger
than one it fits into.
-/

namespace Grammar

section

variable {α : Type} {separator : Mark} {trailing : Bool} {item more : Word → List α → Prop}
  {word : Word} {items : List α}

/-- What goes on with some items goes on with more of them. -/
theorem Rest.mono
    (rest : Rest separator trailing item word items)
    (included : ∀ word items, item word items → more word items) :
    Rest separator trailing more word items := by
  induction rest with
  | done => exact .done
  | trailing isTrailing => exact .trailing isTrailing
  | more first _ hypothesis => exact .more (included _ _ first) hypothesis

/-- A series of some items is a series of more of them. -/
theorem Series.mono
    (series : Series separator trailing item word items)
    (included : ∀ word items, item word items → more word items) :
    Series separator trailing more word items := by
  cases series with
  | intro first rest => exact .intro (included _ _ first) (rest.mono included)

end

section

variable {inner other : Phrase → Word → Expr → Prop}
  (included : ∀ form word expr, inner form word expr → other form word expr)
  {word : Word} {expr : Expr}

include included

/-- A binding stays one when more phrases are given for its body. -/
theorem Binding.mono {stmts : List Stmt} (binding : Binding inner word stmts) :
    Binding other word stmts := by
  cases binding with
  | intro distinct body => exact .intro distinct (included _ _ _ body)

theorem Element.mono {exprs : List Expr} (element : Element inner word exprs) :
    Element other word exprs := by
  cases element with
  | intro expression => exact .intro (included _ _ _ expression)

/-- The key and the value of an entry may come from more phrases. -/
theorem MapEntry.mono {entries : List Entry} (entry : MapEntry inner word entries) :
    MapEntry other word entries := by
  cases entry with
  | named value => exact .named (included _ _ _ value)
  | keyed noName key value => exact .keyed noName (included _ _ _ key) (included _ _ _ value)

/-- The phrases in the brackets of an atom may come from more phrases. -/
theorem Atom.mono (atom : Atom inner word expr) : Atom other word expr := by
  cases atom with
  | leaf isLeaf => exact .leaf isLeaf
  | group expression => exact .group (included _ _ _ expression)
  | emptyArray => exact .emptyArray
  | array elements => exact .array (elements.mono fun _ _ => Element.mono included)
  | set elements => exact .set (elements.mono fun _ _ => Element.mono included)
  | map entries => exact .map (entries.mono fun _ _ => MapEntry.mono included)

theorem Indices.mono {target : Expr} (indices : Indices inner target word expr) :
    Indices other target word expr := by
  induction indices with
  | done => exact .done
  | more key _ hypothesis => exact .more (included _ _ _ key) hypothesis

theorem Indexed.mono (indexed : Indexed inner word expr) : Indexed other word expr := by
  cases indexed with
  | intro atom indices => exact .intro (atom.mono included) (indices.mono included)

theorem Arguments.mono {exprs : List Expr} (arguments : Arguments inner word exprs) :
    Arguments other word exprs := by
  induction arguments with
  | done => exact .done
  | more argument _ hypothesis => exact .more (argument.mono included) hypothesis

theorem Application.mono (application : Application inner word expr) :
    Application other word expr := by
  cases application with
  | alone indexed => exact .alone (indexed.mono included)
  | emptyCall indexed => exact .emptyCall (indexed.mono included)
  | call indexed arguments nonempty =>
    exact .call (indexed.mono included) (arguments.mono included) nonempty

/-- The right operands of operators may come from more phrases. -/
theorem Operators.mono
    {least : Nat} {left : Expr}
    (operators : Operators inner least left word expr) :
    Operators other least left word expr := by
  induction operators with
  | done => exact .done
  | more isOperator tight right looser _ hypothesis =>
    exact .more isOperator tight (included _ _ _ right) looser hypothesis

theorem Operand.mono {least : Nat} (operand : Operand inner least word expr) :
    Operand other least word expr := by
  cases operand with
  | intro application operators =>
    exact .intro (application.mono included) (operators.mono included)

/-- The body of a function may come from more phrases. -/
theorem Expression.mono (expression : Expression inner word expr) : Expression other word expr := by
  cases expression with
  | operand operand => exact .operand (operand.mono included)
  | function distinct body => exact .function distinct (included _ _ _ body)

/-- A statement is derived from more phrases, whatever its kind. -/
theorem Statement.mono {stmts : List Stmt} (statement : Statement inner word stmts) :
    Statement other word stmts := by
  cases statement with
  | binding binding => exact .binding (binding.mono included)
  | bindings bindings => exact .bindings (bindings.mono fun _ _ => Binding.mono included)
  | mutable body => exact .mutable (included _ _ _ body)
  | assignment body => exact .assignment (included _ _ _ body)
  | expression expression => exact .expression (expression.mono included)

/-- Every phrase that is derived from some phrases is derived from more of them. -/
theorem PhraseOf.mono {form : Phrase} (phrase : PhraseOf inner form word expr) :
    PhraseOf other form word expr := by
  cases phrase with
  | block statements => exact .block (Series.mono statements fun _ _ => Statement.mono included)
  | body expression => exact .body (expression.mono included)
  | expression expression => exact .expression (expression.mono included)
  | operand operand => exact .operand (operand.mono included)

end

/-- A phrase fits into more room. -/
theorem Within.mono
    {room more : Nat} {form : Phrase} {word : Word} {expr : Expr}
    (derived : Within room form word expr)
    (larger : room ≤ more) :
    Within more form word expr := by
  induction room using Nat.strongRecOn generalizing more form word expr with
  | _ room hypothesis =>
    obtain ⟨fits, phrase⟩ := within_iff.mp derived
    refine within_iff.mpr ⟨Nat.le_trans fits larger, PhraseOf.mono (fun _ _ _ inside => ?_) phrase⟩
    exact hypothesis _ (Phrase.sub_levels_lt fits) inside (Nat.sub_le_sub_right larger _)

end Grammar

end Offside
