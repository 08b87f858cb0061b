import Offside.Syntax.Alike

namespace Offside

/-!
# Trees without spans

A tree is bare when its spans are forgotten.  Two trees are equal apart from their spans
when they are the same bare tree.
-/

/-- The span of every node of a bare tree. -/
def Span.nowhere : Span :=
  ⟨none, .origin, .origin⟩

mutual

/-- An expression without its spans. -/
def Expr.bare : Expr → Expr
  | .int _ value => .int .nowhere value
  | .float _ value => .float .nowhere value
  | .string _ value => .string .nowhere value
  | .char _ value => .char .nowhere value
  | .bool _ value => .bool .nowhere value
  | .array _ elements => .array .nowhere (Expr.bareAll elements)
  | .set _ elements => .set .nowhere (Expr.bareAll elements)
  | .map _ entries => .map .nowhere (Entry.bareAll entries)
  | .identifier _ name => .identifier .nowhere name
  | .binary _ left operator right => .binary .nowhere left.bare operator right.bare
  | .function _ parameters body => .function .nowhere parameters body.bare
  | .call _ callee arguments => .call .nowhere callee.bare (Expr.bareAll arguments)
  | .index _ target key => .index .nowhere target.bare key.bare
  | .block _ statements => .block .nowhere (Stmt.bareAll statements)

/-- Expressions without their spans. -/
def Expr.bareAll : List Expr → List Expr
  | [] => []
  | expr :: exprs => expr.bare :: Expr.bareAll exprs

/-- A map entry without its spans. -/
def Entry.bare : Entry → Entry
  | .pair _ key value => .pair .nowhere key.bare value.bare

/-- Map entries without their spans. -/
def Entry.bareAll : List Entry → List Entry
  | [] => []
  | entry :: entries => entry.bare :: Entry.bareAll entries

/-- A statement without its spans. -/
def Stmt.bare : Stmt → Stmt
  | .binding _ mutable name value => .binding .nowhere mutable name value.bare
  | .assignment _ target value => .assignment .nowhere target value.bare
  | .expression _ value => .expression .nowhere value.bare

/-- Statements without their spans. -/
def Stmt.bareAll : List Stmt → List Stmt
  | [] => []
  | stmt :: stmts => stmt.bare :: Stmt.bareAll stmts

end

/-- Spans are forgotten one expression at a time, and the same goes for entries and statements.
-/
@[simp] theorem Expr.bareAll_append (exprs more : List Expr) :
    Expr.bareAll (exprs ++ more) = Expr.bareAll exprs ++ Expr.bareAll more := by
  induction exprs with
  | nil => rfl
  | cons expr exprs hypothesis =>
    simp only [List.cons_append, Expr.bareAll, hypothesis]

@[simp] theorem Entry.bareAll_append (entries more : List Entry) :
    Entry.bareAll (entries ++ more) = Entry.bareAll entries ++ Entry.bareAll more := by
  induction entries with
  | nil => rfl
  | cons entry entries hypothesis =>
    simp only [List.cons_append, Entry.bareAll, hypothesis]

@[simp] theorem Stmt.bareAll_append (stmts more : List Stmt) :
    Stmt.bareAll (stmts ++ more) = Stmt.bareAll stmts ++ Stmt.bareAll more := by
  induction stmts with
  | nil => rfl
  | cons stmt stmts hypothesis =>
    simp only [List.cons_append, Stmt.bareAll, hypothesis]

end Offside
