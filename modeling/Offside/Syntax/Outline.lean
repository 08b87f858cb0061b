import Offside.Syntax.Tree
import Offside.Token.Basic

namespace Offside

/-!
# Outlines of syntax trees

An outline is a syntax tree with every node reduced to its name, its span and its
labelled fields.  It is written as indented lines, two columns a step.
-/

mutual

/-- A node of an outline. -/
inductive Outline where
  | node (name : String) (span : Span) (fields : List OutlineField)

/-- A labelled field of an outline node. -/
inductive OutlineField where
  | text (label : String) (content : Text)
  | texts (label : String) (contents : List Text)
  | child (label : String) (child : Outline)
  | children (label : String) (children : List Outline)

end

mutual

/-- The outline of an expression. -/
def Expr.outline : Expr → Outline
  | .int span value => .node "IntLit" span [.text "value" (Text.ofInt value)]
  | .float span value => .node "FloatLit" span [.text "value" (Decimal.floatText value)]
  | .string span value => .node "StringLit" span [.text "value" (Text.dumped value)]
  | .char span value => .node "CharLit" span [.text "value" (Text.dumped [value])]
  | .bool span value =>
      .node "BoolLit" span [.text "value" (if value then "True" else "False")]
  | .array span elements =>
      .node "ArrayLit" span [.children "elements" (Expr.outlines elements)]
  | .set span elements => .node "SetLit" span [.children "elements" (Expr.outlines elements)]
  | .map span entries => .node "MapLit" span [.children "entries" (Entry.outlines entries)]
  | .identifier span name => .node "Identifier" span [.text "name" (Text.dumped name)]
  | .binary span left operator right =>
      .node "BinaryOp" span
        [.child "left" left.outline, .text "operator" operator.name,
         .child "right" right.outline]
  | .function span parameters body =>
      .node "Lambda" span
        [.texts "parameters" (parameters.map Text.dumped), .child "body" body.outline]
  | .call span callee arguments =>
      .node "Call" span
        [.child "callee" callee.outline, .children "arguments" (Expr.outlines arguments)]
  | .index span target key =>
      .node "Index" span [.child "target" target.outline, .child "index" key.outline]
  | .block span statements =>
      .node "Block" span [.children "statements" (Stmt.outlines statements)]

/-- The outlines of expressions. -/
def Expr.outlines : List Expr → List Outline
  | [] => []
  | expr :: exprs => expr.outline :: Expr.outlines exprs

/-- The outline of a map entry. -/
def Entry.outline : Entry → Outline
  | .pair span key value =>
      .node "MapEntry" span [.child "key" key.outline, .child "value" value.outline]

/-- The outlines of map entries. -/
def Entry.outlines : List Entry → List Outline
  | [] => []
  | entry :: entries => entry.outline :: Entry.outlines entries

/-- The outline of a statement. -/
def Stmt.outline : Stmt → Outline
  | .binding span mutable name value =>
      .node (if mutable then "VarBinding" else "LetBinding") span
        [.text "name" (Text.dumped name), .child "value" value.outline]
  | .assignment span target value =>
      .node "Assignment" span
        [.text "target" (Text.dumped target), .child "value" value.outline]
  | .expression span value =>
      .node "ExpressionStatement" span [.child "expression" value.outline]

/-- The outlines of statements. -/
def Stmt.outlines : List Stmt → List Outline
  | [] => []
  | stmt :: stmts => stmt.outline :: Stmt.outlines stmts

end

/-- The outline of a program. -/
def Program.outline (program : Program) : Outline :=
  .node "Program" program.span [.children "statements" (Stmt.outlines program.statements)]

/-- The outline of any node. -/
def Node.outline : Node → Outline
  | .expr root => root.outline
  | .entry root => root.outline
  | .stmt root => root.outline
  | .program root => root.outline

/-- The name of a node in its outline. -/
def Outline.name : Outline → String
  | .node name _ _ => name

/-- A line of an outline, `depth` steps in. -/
def Outline.line (depth : Nat) (content : Text) : Text :=
  List.replicate (2 * depth) (CodePoint.scalar ' ') ++ content

mutual

/-- The lines of an outline, `depth` steps in. -/
def Outline.lines (depth : Nat) : Outline → List Text
  | .node name _ fields => Outline.line depth name :: OutlineField.linesAll (depth + 1) fields

/-- The lines of outlines one below the other. -/
def Outline.linesAll (depth : Nat) : List Outline → List Text
  | [] => []
  | outline :: outlines => outline.lines depth ++ Outline.linesAll depth outlines

/-- The lines of a field. -/
def OutlineField.lines (depth : Nat) : OutlineField → List Text
  | .text label content => [Outline.line depth (Text.ofString label ++ ": " ++ content)]
  | .texts label contents =>
      Outline.line depth (Text.ofString label ++ ": [") ::
        (contents.map (Outline.line (depth + 1)) ++ [Outline.line depth "]"])
  | .child label child =>
      Outline.line depth (Text.ofString label ++ ":") :: child.lines (depth + 1)
  | .children label children =>
      Outline.line depth (Text.ofString label ++ ": [") ::
        (Outline.linesAll (depth + 1) children ++ [Outline.line depth "]"])

/-- The lines of fields one below the other. -/
def OutlineField.linesAll (depth : Nat) : List OutlineField → List Text
  | [] => []
  | field :: fields => field.lines depth ++ OutlineField.linesAll depth fields

end

mutual

/-- Name and span of every node of an outline, each before its children. -/
def Outline.spans : Outline → List (String × Span)
  | .node name span fields => (name, span) :: OutlineField.spansAll fields

/-- Name and span of every node of outlines. -/
def Outline.spansAll : List Outline → List (String × Span)
  | [] => []
  | outline :: outlines => outline.spans ++ Outline.spansAll outlines

/-- Name and span of every node in a field. -/
def OutlineField.spans : OutlineField → List (String × Span)
  | .text _ _ | .texts _ _ => []
  | .child _ child => child.spans
  | .children _ children => Outline.spansAll children

/-- Name and span of every node in fields. -/
def OutlineField.spansAll : List OutlineField → List (String × Span)
  | [] => []
  | field :: fields => field.spans ++ OutlineField.spansAll fields

end

/-- The outline of a node as text. -/
def Node.outlineText (node : Node) : Text :=
  Text.join [.scalar '\n'] (node.outline.lines 0)

end Offside
