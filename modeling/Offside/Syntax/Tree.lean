import Offside.Token.Basic

namespace Offside

/-!
# Syntax trees

Every node carries the span that it was read from.  A function binding such as
`let f a b = e` has no node of its own: it binds `f` to a function of `a` and `b`.
-/

mutual

/-- An expression. -/
inductive Expr where
  | int (span : Span) (value : Int)
  | float (span : Span) (value : Float)
  | string (span : Span) (value : Text)
  | char (span : Span) (value : CodePoint)
  | bool (span : Span) (value : Bool)
  | array (span : Span) (elements : List Expr)
  | set (span : Span) (elements : List Expr)
  | map (span : Span) (entries : List Entry)
  | identifier (span : Span) (name : Text)
  | binary (span : Span) (left : Expr) (operator : TokenKind) (right : Expr)
  | function (span : Span) (parameters : List Text) (body : Expr)
  | call (span : Span) (callee : Expr) (arguments : List Expr)
  | index (span : Span) (target key : Expr)
  | block (span : Span) (statements : List Stmt)

/-- A key with its value in a map literal. -/
inductive Entry where
  | pair (span : Span) (key value : Expr)

/-- A statement. -/
inductive Stmt where
  | binding (span : Span) (mutable : Bool) (name : Text) (value : Expr)
  | assignment (span : Span) (target : Text) (value : Expr)
  | expression (span : Span) (value : Expr)

end

instance : Inhabited Expr :=
  ⟨.bool ⟨none, .origin, .origin⟩ false⟩

instance : Inhabited Stmt :=
  ⟨.expression ⟨none, .origin, .origin⟩ default⟩

/-- A program: its statements in order. -/
structure Program where
  span : Span
  statements : List Stmt

/-- Any node of a syntax tree. -/
inductive Node where
  | expr (expr : Expr)
  | entry (entry : Entry)
  | stmt (stmt : Stmt)
  | program (program : Program)

/-- The span of an expression. -/
def Expr.span : Expr → Span
  | .int span _ | .float span _ | .string span _ | .char span _ | .bool span _
  | .array span _ | .set span _ | .map span _ | .identifier span _ | .binary span _ _ _
  | .function span _ _ | .call span _ _ | .index span _ _ | .block span _ => span

/-- The span of a map entry. -/
def Entry.span : Entry → Span
  | .pair span _ _ => span

/-- The span of a statement. -/
def Stmt.span : Stmt → Span
  | .binding span _ _ _ | .assignment span _ _ | .expression span _ => span

/-- The span of a node. -/
def Node.span : Node → Span
  | .expr root => root.span
  | .entry root => root.span
  | .stmt root => root.span
  | .program root => root.span

/-- The nodes directly below a node. -/
def Node.parts : Node → List Node
  | .expr (.array _ elements) | .expr (.set _ elements) => elements.map .expr
  | .expr (.map _ entries) => entries.map .entry
  | .expr (.binary _ left _ right) => [.expr left, .expr right]
  | .expr (.function _ _ body) => [.expr body]
  | .expr (.call _ callee arguments) => .expr callee :: arguments.map .expr
  | .expr (.index _ target key) => [.expr target, .expr key]
  | .expr (.block _ statements) => statements.map .stmt
  | .expr _ => []
  | .entry (.pair _ key value) => [.expr key, .expr value]
  | .stmt (.binding _ _ _ value) | .stmt (.assignment _ _ value)
  | .stmt (.expression _ value) => [.expr value]
  | .program root => root.statements.map .stmt

/-- Whether an expression is a function. -/
def Expr.isFunction : Expr → Bool
  | .function _ _ _ => true
  | _ => false

end Offside
