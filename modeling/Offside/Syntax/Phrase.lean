import Offside.Syntax.Cursor
import Offside.Syntax.Tree

namespace Offside

/-!
# Reading expressions and statements

Operators bind, from loose to tight, as `== !=`, `< > <= >=`, `+ -`, `* / %` and
`^`; only `^` groups to the right.  Application by juxtaposition binds tighter than
every operator, and an index that follows its target without a blank tighter still.

Each reader of this module takes the reader `nested` of the phrases inside it, so
one recursion over the remaining nesting room ties them together.  A right operand takes one
level of it.  A body, or what stands in a bracket, takes six, since the readers call each
other on the way to it: through an operand, an application, an index, an atom, a bracket and
an expression.  Lists are read by
loops of at most `steps` rounds; the number of tokens is always enough, since every
round passes one.
-/

/-- What may stand inside another phrase: the body of a binding or a function, an
expression, or an operand whose operators have at least a precedence. -/
inductive Phrase where
  | body
  | expression
  | operand (precedence : Nat)
deriving Repr, DecidableEq

/-- How many levels deeper than the phrase around it a phrase is read. -/
def Phrase.levels : Phrase → Nat
  | .operand _ => 1
  | .body | .expression => 6

/-- The phrases inside another one have less room. -/
theorem Phrase.sub_levels_lt {room : Nat} {form : Phrase} (fits : form.levels ≤ room) :
    room - form.levels < room := by
  have positive : 0 < form.levels := by cases form <;> exact Nat.succ_pos _
  omega

namespace TokenKind

/-- The precedence of a binary operator; higher binds tighter. -/
def precedence? : TokenKind → Option Nat
  | .mark .equal | .mark .notEqual => some 1
  | .mark .less | .mark .greater | .mark .lessEqual | .mark .greaterEqual => some 2
  | .mark .plus | .mark .minus => some 3
  | .mark .star | .mark .slash | .mark .percent => some 4
  | .mark .caret => some 5
  | _ => none

/-- Whether an operator groups to the right. -/
def groupsRight : TokenKind → Bool
  | .mark .caret => true
  | _ => false

end TokenKind

/-- Whether a symbol can start an atom, and so an argument. -/
def Symbol.startsAtom : Symbol → Bool
  | .mark fixed => fixed.opensBracket
  | _ => true

namespace Reading

/-- Parameter names up to a mark; no name may occur twice. -/
def parametersFrom (terminator : Mark) : (steps : Nat) → List Text → Reading (List Text)
  | 0, names => pure names
  | steps + 1, names => do
      let token ← current
      match token.symbol with
      | .identifier name =>
          let _ ← advance
          if names.contains name then failAt (.repeatedParameter name) token.span
          else parametersFrom terminator steps (names ++ [name])
      | _ =>
          if ← atMark terminator then return names
          else expected ("parameter name or " ++ (TokenKind.mark terminator).description)

section

variable (steps : Nat) (nested : Phrase → Reading Expr)

/-- The value of a binding statement, from its name on; parameters make it a
function. -/
def bindingFrom (start : Token) : Reading Stmt := do
  let (nameToken, name) ← requireName "binding name"
  let parameters ← parametersFrom .assign steps []
  let _ ← requireMark .assign "parameter name or '='"
  let body ← nested .body
  let value :=
    if parameters.isEmpty then body
    else .function (nameToken.span.through body.span) parameters body
  return .binding (← spanFrom start) false name value

/-- The remaining bindings of an indented group. -/
def bindingsFrom : (steps : Nat) → List Stmt → Reading (List Stmt)
  | 0, bindings => pure bindings
  | rounds + 1, bindings => do
      if ← passMark .itemSeparator then
        let binding ← bindingFrom steps nested (← current)
        bindingsFrom rounds (bindings ++ [binding])
      else return bindings

/-- A `let` with one binding or an indented group of them. -/
def letStatement : Reading (List Stmt) := do
  let start ← advance
  if ← passMark .blockStart then
    let first ← bindingFrom steps nested (← current)
    let bindings ← bindingsFrom steps nested steps [first]
    let _ ← requireMark .blockEnd "binding or end of 'let' block"
    return bindings
  else return [← bindingFrom steps nested start]

/-- A `var` statement. -/
def varStatement : Reading Stmt := do
  let start ← advance
  let (_, name) ← requireName "binding name"
  let _ ← requireMark .assign "'='"
  let value ← nested .body
  return .binding (← spanFrom start) true name value

/-- An assignment to a name. -/
def assignment (name : Text) : Reading Stmt := do
  let start ← advance
  let _ ← advance
  let value ← nested .body
  return .assignment (← spanFrom start) name value

/-- One function: its parameters and its body. -/
def function : Reading Expr := do
  let start ← advance
  let parameters ← parametersFrom .arrow steps []
  let _ ← advance
  let body ← nested .body
  return .function (← spanFrom start) parameters body

/-- Whether an empty pair of parentheses stands here. -/
def atEmptyParens : Reading Bool := do
  let cursor ← get
  return cursor.current.isMark .openParen && cursor.following.isMark .closeParen

/-- An expression in parentheses; the parentheses leave no node. -/
def grouped : Reading Expr := do
  let start ← advance
  let token ← current
  if token.isMark .closeParen then failAt .emptyClause (start.span.through token.span)
  else
    let expr ← nested .expression
    let _ ← closeBracket start .closeParen
    return expr

/-- Elements up to a closing bracket or a missing comma. -/
def elementsFrom : (steps : Nat) → List Expr → Reading (List Expr)
  | 0, elements => pure elements
  | rounds + 1, elements => do
      if ← atMark .closeBracket then return elements
      else
        let element ← nested .expression
        if ← passMark .comma then elementsFrom rounds (elements ++ [element])
        else return elements ++ [element]

/-- An array literal. -/
def array : Reading Expr := do
  let start ← advance
  let elements ← elementsFrom nested steps []
  let _ ← closeBracket start .closeBracket
  return .array (← spanFrom start) elements

/-- A map entry whose key is an identifier, read as a string. -/
def namedEntry (name : Text) : Reading Entry := do
  let start ← advance
  let _ ← requireMark .colon "':'"
  let value ← nested .expression
  return .pair (← spanFrom start) (.string start.span name) value

/-- The rest of a map entry after its key and the colon. -/
def entryAfter (start : Token) (key : Expr) : Reading Entry := do
  let _ ← advance
  let value ← nested .expression
  return .pair (← spanFrom start) key value

/-- The name of the current token if it is an identifier before a colon. -/
def keyName? : Reading (Option Text) := do
  let token ← current
  match token.symbol with
  | .identifier name => if ← atNameBefore .colon then return some name else return none
  | _ => return none

/-- Further entries of a map literal. -/
def entriesFrom : (steps : Nat) → List Entry → Reading (List Entry)
  | 0, entries => pure entries
  | rounds + 1, entries => do
      if !(← passMark .comma) then return entries
      else if ← atMark .closeBrace then return entries
      else
        match ← keyName? with
        | some name =>
            let entry ← namedEntry nested name
            entriesFrom rounds (entries ++ [entry])
        | none =>
            let start ← current
            let key ← nested .expression
            if ← atMark .colon then
              let entry ← entryAfter nested start key
              entriesFrom rounds (entries ++ [entry])
            else failAt .mixedCollection (← spanFrom start)

/-- Further elements of a set literal. -/
def membersFrom : (steps : Nat) → List Expr → Reading (List Expr)
  | 0, members => pure members
  | rounds + 1, members => do
      if !(← passMark .comma) then return members
      else if ← atMark .closeBrace then return members
      else
        let start ← current
        let member ← nested .expression
        if ← atMark .colon then failAt .mixedCollection (← spanFrom start)
        else membersFrom rounds (members ++ [member])

/-- The rest of a map literal after its first entry. -/
def mapAfter (start : Token) (first : Entry) : Reading Expr := do
  let entries ← entriesFrom nested steps [first]
  let _ ← closeBracket start .closeBrace
  return .map (← spanFrom start) entries

/-- A map or a set literal; its first element decides which. -/
def braces : Reading Expr := do
  let start ← advance
  let token ← current
  if token.isMark .closeBrace then failAt .emptyBraces (start.span.through token.span)
  else
    match ← keyName? with
    | some name => mapAfter steps nested start (← namedEntry nested name)
    | none =>
        let first ← nested .expression
        if ← atMark .colon then
          mapAfter steps nested start (← entryAfter nested token first)
        else
          let members ← membersFrom nested steps [first]
          let _ ← closeBracket start .closeBrace
          return .set (← spanFrom start) members

/-- A literal, a name, or a bracketed phrase. -/
def atom : Reading Expr := do
  let token ← current
  match token.symbol with
  | .int value => do
      let _ ← advance
      return .int token.span value
  | .float value => do
      let _ ← advance
      return .float token.span value
  | .string value | .rawString value => do
      let _ ← advance
      return .string token.span value
  | .char value => do
      let _ ← advance
      return .char token.span value
  | .bool value => do
      let _ ← advance
      return .bool token.span value
  | .identifier name => do
      let _ ← advance
      return .identifier token.span name
  | .mark .openParen => grouped nested
  | .mark .openBracket => array steps nested
  | .mark .openBrace => braces steps nested
  | .mark mark =>
      if mark.closesBracket then failAt (.neverOpened token.lexeme) token.span
      else expected "expression"

/-- Indices written right after a target. -/
def indicesFrom : (steps : Nat) → Expr → Reading Expr
  | 0, target => pure target
  | rounds + 1, target => do
      let cursor ← get
      if cursor.current.isMark .openBracket &&
          cursor.passed.span.stop.offset == cursor.current.span.start.offset then
        let start ← advance
        if ← atMark .closeBracket then expected "index expression"
        else
          let key ← nested .expression
          let stop ← closeBracket start .closeBracket
          indicesFrom rounds (.index (target.span.through stop.span) target key)
      else return target

/-- An atom with its indices. -/
def indexed : Reading Expr := do
  let target ← atom steps nested
  indicesFrom nested steps target

/-- Further arguments of a call. -/
def argumentsFrom : (steps : Nat) → List Expr → Reading (List Expr)
  | 0, arguments => pure arguments
  | rounds + 1, arguments => do
      let token ← current
      if !token.symbol.startsAtom then return arguments
      else if ← atEmptyParens then failAt .emptyClause token.span
      else
        let argument ← indexed steps nested
        argumentsFrom rounds (arguments ++ [argument])

/-- A call, or its callee alone if no argument follows. -/
def application : Reading Expr := do
  let callee ← indexed steps nested
  if ← atEmptyParens then
    let _ ← advance
    let stop ← advance
    return .call (callee.span.through stop.span) callee []
  else
    let arguments ← argumentsFrom steps nested steps []
    match arguments.getLast? with
    | none => return callee
    | some last => return .call (callee.span.through last.span) callee arguments

/-- Further operators of at least a precedence, with their right operands. -/
def operatorsFrom (least : Nat) : (steps : Nat) → Expr → Reading Expr
  | 0, left => pure left
  | rounds + 1, left => do
      let token ← current
      match token.kind.precedence? with
      | none => return left
      | some precedence =>
          if precedence < least then return left
          else
            let _ ← advance
            let inner := if token.kind.groupsRight then precedence else precedence + 1
            let right ← nested (.operand inner)
            operatorsFrom least rounds
              (.binary (left.span.through right.span) left token.kind right)

/-- Applications joined by operators of at least a precedence. -/
def binary (least : Nat) : Reading Expr := do
  let left ← application steps nested
  operatorsFrom nested least steps left

/-- An expression. -/
def expression : Reading Expr := do
  if ← atMark .funWord then function steps nested else binary steps nested 0

/-- One statement; a group of bindings gives several. -/
def statement : Reading (List Stmt) := do
  let token ← current
  match token.symbol with
  | .mark .letWord => letStatement steps nested
  | .mark .varWord => return [← varStatement nested]
  | .identifier name =>
      if ← atNameBefore .assign then return [← assignment nested name]
      else
        let expr ← expression steps nested
        return [.expression expr.span expr]
  | _ =>
      let expr ← expression steps nested
      return [.expression expr.span expr]

/-- Further statements of a block. -/
def statementsFrom : (steps : Nat) → List Stmt → Reading (List Stmt)
  | 0, statements => pure statements
  | rounds + 1, statements => do
      if ← passMark .itemSeparator then
        let more ← statement steps nested
        statementsFrom rounds (statements ++ more)
      else return statements

/-- The statements of a block up to the mark that ends it. -/
def statements (terminator : Mark) : Reading (List Stmt) := do
  let first ← statement steps nested
  let all ← statementsFrom steps nested steps first
  let token ← current
  match token.symbol with
  | .mark mark =>
      if mark.closesBracket then failAt (.neverOpened token.lexeme) token.span
      else if mark = terminator then return all
      else expected "end of statement"
  | _ => expected "end of statement"

/-- An indented block. -/
def block : Reading Expr := do
  let start ← advance
  let all ← statements steps nested .blockEnd
  let _ ← advance
  return .block (← spanFrom start) all

/-- A phrase whose inner phrases `nested` reads. -/
def phraseWith : Phrase → Reading Expr
  | .body => do if ← atMark .blockStart then block steps nested else expression steps nested
  | .expression => expression steps nested
  | .operand least => binary steps nested least

end

/-- The failure of a phrase that there is no room for. -/
def tooDeep : Reading Expr := do
  failAt .nestedTooDeeply (← current).span

/-- A phrase with room for so many levels of nesting. -/
def phrase (steps : Nat) : (room : Nat) → Phrase → Reading Expr
  | room + 1, .operand least => phraseWith steps (phrase steps room) (.operand least)
  | room + 6, .body => phraseWith steps (phrase steps room) .body
  | room + 6, .expression => phraseWith steps (phrase steps room) .expression
  | _, _ => tooDeep

theorem phrase_of_fits {steps room : Nat} {form : Phrase} (fits : form.levels ≤ room) :
    phrase steps room form = phraseWith steps (phrase steps (room - form.levels)) form := by
  obtain ⟨inside, rfl⟩ := Nat.exists_eq_add_of_le' fits
  rw [Nat.add_sub_cancel]
  cases form <;> rfl

theorem phrase_of_not_fits {steps room : Nat} {form : Phrase} (deep : ¬ form.levels ≤ room) :
    phrase steps room form = tooDeep := by
  have small : room < form.levels := Nat.lt_of_not_le deep
  cases form with
  | operand =>
    rw [Nat.lt_one_iff.mp small]
    rfl
  | body | expression =>
    obtain _ | _ | _ | _ | _ | _ | room := room
    iterate 6 rfl
    exact absurd small (Nat.not_lt.mpr (Nat.le_add_left 6 room))

end Reading

end Offside
