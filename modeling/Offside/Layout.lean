import Offside.Token.Stream

namespace Offside

/-!
# Block structure from indentation

The layout of a token stream turns line starts into block marks:

* the program is a block at the column of its first token;
* a line that starts past the innermost block, after a line ending in `=`, `->`
  or `let`, opens a block at its column;
* a line at the column of the innermost block starts its next item;
* a line that starts further right, or with a comma, continues the line before;
* a line that starts further left closes blocks until one has its column;
* inside brackets line starts mean nothing, and a closing bracket closes the
  blocks that were opened inside it.
-/

namespace Layout

/-- What encloses a place: a block that was opened at a column, or a bracket. -/
inductive Context where
  | block (column : Nat)
  | bracket
deriving Repr, DecidableEq

/-- The open contexts, innermost first, inside the program block. -/
structure Stack where
  program : Nat
  inner : List Context
deriving Repr, DecidableEq

namespace Stack

/-- The column of the innermost block. -/
def innermost (stack : Stack) : Nat :=
  (stack.inner.findSome? fun
    | .block column => some column
    | .bracket => none).getD stack.program

/-- The column of the innermost context, if that is a block. -/
def topColumn? (stack : Stack) : Option Nat :=
  match stack.inner with
  | [] => some stack.program
  | .block column :: _ => some column
  | .bracket :: _ => none

end Stack

/-- The columns recorded for lines; of two for one line the later holds. -/
abbrev Indents := List (Nat × Nat)

/-- The column at which the line of its first token starts. -/
def indentOf (indents : Indents) (token : Token) : Nat :=
  match (indents.filter (·.1 == token.span.start.line)).getLast? with
  | some (_, column) => column
  | none => token.span.start.column

/-- Closes the blocks right of a column.  The marks say what is closed and whether
an item of the remaining block starts; `none` if no block has the column. -/
def dedent (column program : Nat) : List Context → Option (List Mark × List Context)
  | [] => if column = program then some ([.itemSeparator], []) else none
  | .bracket :: outer => some ([], .bracket :: outer)
  | .block start :: outer =>
      if column < start then
        (dedent column program outer).map fun (marks, rest) => (.blockEnd :: marks, rest)
      else if column = start then some ([.itemSeparator], .block start :: outer)
      else none

/-- Whether a line that ends in a symbol lets the next one open a block. -/
def opensBlock : Symbol → Bool
  | .mark .assign | .mark .arrow | .mark .letWord => true
  | _ => false

/-- The marks before the first token of a line at a column, after a line that ended
in `previous`, and the contexts from there on. -/
def startLine (stack : Stack) (previous : Option Symbol) (column : Nat) (token : Token) :
    Option (List Mark × Stack) :=
  if previous.any opensBlock && stack.innermost < column then
    some ([.blockStart], { stack with inner := .block column :: stack.inner })
  else
    match stack.topColumn? with
    | none => some ([], stack)
    | some top =>
        if token.isMark .comma || top < column then some ([], stack)
        else
          (dedent column stack.program stack.inner).map fun (marks, inner) =>
            (marks, { stack with inner })

/-- Closes the innermost bracket and the blocks inside it; `none` if no bracket is
open. -/
def closeBracket : List Context → Option (List Mark × List Context)
  | [] => none
  | .bracket :: outer => some ([], outer)
  | .block _ :: outer =>
      (closeBracket outer).map fun (marks, rest) => (.blockEnd :: marks, rest)

/-- The marks that a token brings by opening or closing a bracket, and the contexts
after it. -/
def passBracket (stack : Stack) (token : Token) : List Mark × Stack :=
  match token.symbol with
  | .mark mark =>
      if mark.opensBracket then ([], { stack with inner := .bracket :: stack.inner })
      else if mark.closesBracket then
        match closeBracket stack.inner with
        | some (marks, inner) => (marks, { stack with inner })
        | none => ([], stack)
      else ([], stack)
  | _ => ([], stack)

/-- The marks that close every block still open at the end of input. -/
def closeAll (inner : List Context) : List Mark :=
  inner.filterMap fun
    | .block _ => some .blockEnd
    | .bracket => none

/-- Empty tokens for marks, at the start of a token. -/
def marksAt (token : Token) (marks : List Mark) : List Token :=
  marks.map fun mark => ⟨.mark mark, [], token.span.atStart⟩

/-- Where a resolver stands: the open contexts once a token was seen, the symbol
before, and whether a line starts here. -/
structure State where
  stack : Option Stack
  previous : Option Symbol
  atLineStart : Bool
deriving Repr, DecidableEq

/-- The state before the first token. -/
def State.initial : State :=
  ⟨none, none, false⟩

/-- The marks before a token for its place in the lines, and the contexts there. -/
def arrive (indents : Indents) (state : State) (token : Token) : Option (List Mark × Stack) :=
  match state.stack with
  | none => some ([], ⟨indentOf indents token, []⟩)
  | some stack =>
      if state.atLineStart then
        startLine stack state.previous (indentOf indents token) token
      else some ([], stack)

/-- The layout of the rest of a token list. -/
def resolveFrom (indents : Indents) (state : State) : List Token → Except Fault (List Token)
  | [] => .ok []
  | token :: rest =>
      if token.isMark .newline then resolveFrom indents { state with atLineStart := true } rest
      else if token.isMark .endOfInput then
        let inner := (state.stack.map (·.inner)).getD []
        .ok (marksAt token (closeAll inner) ++ [token])
      else
        match arrive indents state token with
        | none =>
            .error (.located (.inconsistentDedent (indentOf indents token)) token.span)
        | some (lineMarks, stack) =>
            let (bracketMarks, after) := passBracket stack token
            match resolveFrom indents ⟨some after, some token.symbol, false⟩ rest with
            | .error fault => .error fault
            | .ok tokens =>
                .ok (marksAt token lineMarks ++ marksAt token bracketMarks ++ token :: tokens)

/-- The layout of a token list: its block marks are inserted and its newlines are
left out. -/
def resolve (indents : Indents) (tokens : List Token) : Except Fault (List Token) :=
  resolveFrom indents .initial tokens

end Layout

/-- The token list of a source with its block marks. -/
def layoutTokens (file : Option Text) (source : Text) : Except Failure (List Token) :=
  let stream := tokenize file source
  match stream.failure with
  | some failure => .error failure
  | none => Failure.lift (Layout.resolve stream.indents stream.tokens)

end Offside
