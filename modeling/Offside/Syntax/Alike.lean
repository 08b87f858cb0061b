import Offside.Syntax.Tree

namespace Offside

/-!
# Equality of syntax trees

Two trees are alike when they differ in their spans only.  Floats compare as
numbers, so `0.0` and `-0.0` are alike.
-/

mutual

/-- Whether two expressions are alike. -/
def Expr.alike : Expr → Expr → Bool
  | .int _ left, .int _ right => left == right
  | .float _ left, .float _ right => left == right
  | .string _ left, .string _ right => left == right
  | .char _ left, .char _ right => left == right
  | .bool _ left, .bool _ right => left == right
  | .array _ lefts, .array _ rights => Expr.alikeAll lefts rights
  | .set _ lefts, .set _ rights => Expr.alikeAll lefts rights
  | .map _ lefts, .map _ rights => Entry.alikeAll lefts rights
  | .identifier _ left, .identifier _ right => left == right
  | .binary _ left operator right, .binary _ left' operator' right' =>
      left.alike left' && operator == operator' && right.alike right'
  | .function _ parameters body, .function _ parameters' body' =>
      parameters == parameters' && body.alike body'
  | .call _ callee arguments, .call _ callee' arguments' =>
      callee.alike callee' && Expr.alikeAll arguments arguments'
  | .index _ target key, .index _ target' key' => target.alike target' && key.alike key'
  | .block _ lefts, .block _ rights => Stmt.alikeAll lefts rights
  | _, _ => false

/-- Whether two lists of expressions are alike, one by one. -/
def Expr.alikeAll : List Expr → List Expr → Bool
  | [], [] => true
  | left :: lefts, right :: rights => left.alike right && Expr.alikeAll lefts rights
  | _, _ => false

/-- Whether two map entries are alike. -/
def Entry.alike : Entry → Entry → Bool
  | .pair _ key value, .pair _ key' value' => key.alike key' && value.alike value'

/-- Whether two lists of map entries are alike, one by one. -/
def Entry.alikeAll : List Entry → List Entry → Bool
  | [], [] => true
  | left :: lefts, right :: rights => left.alike right && Entry.alikeAll lefts rights
  | _, _ => false

/-- Whether two statements are alike. -/
def Stmt.alike : Stmt → Stmt → Bool
  | .binding _ mutable name value, .binding _ mutable' name' value' =>
      mutable == mutable' && name == name' && value.alike value'
  | .assignment _ target value, .assignment _ target' value' =>
      target == target' && value.alike value'
  | .expression _ value, .expression _ value' => value.alike value'
  | _, _ => false

/-- Whether two lists of statements are alike, one by one. -/
def Stmt.alikeAll : List Stmt → List Stmt → Bool
  | [], [] => true
  | left :: lefts, right :: rights => left.alike right && Stmt.alikeAll lefts rights
  | _, _ => false

end

/-- Whether two programs are alike. -/
def Program.alike (left right : Program) : Bool :=
  Stmt.alikeAll left.statements right.statements

end Offside
