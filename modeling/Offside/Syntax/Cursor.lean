import Offside.Fault

namespace Offside

/-!
# Reading a token list

A cursor stands on a token of a list that ends in the end of input; it does not
move past the end.  A reader takes something from a cursor or fails with a fault.
-/

/-- A place in a token list: the token before it, the current one and the rest. -/
structure Cursor where
  before : Option Token
  current : Token
  after : List Token
deriving Repr, DecidableEq

namespace Cursor

/-- The cursor on the first token of a list. -/
def ofTokens? : List Token → Option Cursor
  | [] => none
  | token :: rest => some ⟨none, token, rest⟩

/-- The cursor on the next token. -/
def next (cursor : Cursor) : Cursor :=
  if cursor.current.isMark .endOfInput then cursor
  else
    match cursor.after with
    | [] => cursor
    | token :: rest => ⟨some cursor.current, token, rest⟩

/-- The token after the current one. -/
def following (cursor : Cursor) : Token :=
  cursor.after.head?.getD cursor.current

/-- The token that was passed last, or the first token before any was passed. -/
def passed (cursor : Cursor) : Token :=
  cursor.before.getD cursor.current

end Cursor

/-- Takes something from a cursor, or fails. -/
abbrev Reading (α : Type) := StateT Cursor (Except Fault) α

namespace Reading

/-- The current token. -/
def current : Reading Token := do
  return (← get).current

/-- Whether the current token is a mark. -/
def atMark (mark : Mark) : Reading Bool := do
  return (← get).current.isMark mark

/-- Passes the current token. -/
def advance : Reading Token := do
  let cursor ← get
  set cursor.next
  return cursor.current

/-- Passes a mark if it is current, and says whether it was. -/
def passMark (mark : Mark) : Reading Bool := do
  if ← atMark mark then
    let _ ← advance
    return true
  else return false

/-- Whether the current token is an identifier and a mark follows it. -/
def atNameBefore (mark : Mark) : Reading Bool := do
  let cursor ← get
  return cursor.current.kind == .identifier && cursor.following.isMark mark

/-- Fails for a cause at a span. -/
def failAt {α : Type} (cause : SyntacticCause) (span : Span) : Reading α :=
  throw (.located (.syntactic cause) span)

/-- A token in an error message. -/
def describe (token : Token) : Text :=
  match token.symbol with
  | .mark .itemSeparator => "new line"
  | .mark .blockStart => "indented block"
  | .mark .blockEnd => "end of indented block"
  | .identifier name => "identifier '" ++ name ++ "'"
  | symbol =>
      if symbol.isLiteral && !token.lexeme.isEmpty then
        symbol.kind.description ++ .scalar ' ' :: token.lexeme
      else symbol.kind.description

/-- Fails because something else was expected at the current token. -/
def expected {α : Type} (what : Text) : Reading α := do
  let token ← current
  if token.isMark .endOfInput then failAt (.unexpectedEnd what) token.span
  else failAt (.unexpected what (describe token)) token.span

/-- Passes a mark that has to be current. -/
def requireMark (mark : Mark) (what : Text) : Reading Token := do
  if ← atMark mark then advance else expected what

/-- Passes an identifier that has to be current and gives its name. -/
def requireName (what : Text) : Reading (Token × Text) := do
  let token ← current
  match token.symbol with
  | .identifier name =>
      let _ ← advance
      return (token, name)
  | _ => expected what

/-- The span from the start of a token to the end of the last passed one. -/
def spanFrom (start : Token) : Reading Span := do
  return start.span.through (← get).passed.span

/-- Passes the closing bracket that belongs to `opening`. -/
def closeBracket (opening : Token) (closer : Mark) : Reading Token := do
  let token ← current
  match token.symbol with
  | .mark mark =>
      if mark = closer then advance
      else if mark = .endOfInput then failAt (.neverClosed opening.lexeme) opening.span
      else if mark.closesBracket then
        failAt (.closedBy opening.lexeme (describe token)) token.span
      else expected ("',' or " ++ (TokenKind.mark closer).description)
  | _ => expected ("',' or " ++ (TokenKind.mark closer).description)

end Reading

end Offside
