import Offside.Layout
import Offside.Syntax.Phrase

namespace Offside

/-!
# Reading programs

A program is a list of statements.  Its phrases nest as deep as the stack of the host allows,
which is taken to hold a thousand calls of readers, with some in use already.
-/

/-- How many levels phrases may nest. -/
def nestingRoom : Nat :=
  960

namespace Reading

/-- A whole program. -/
def program (steps : Nat) : Reading Program := do
  let start ← current
  if start.isMark .endOfInput then return ⟨← spanFrom start, []⟩
  else
    let all ← statements steps (phrase steps nestingRoom) .endOfInput
    return ⟨← spanFrom start, all⟩

/-- Exactly one statement. -/
def single (steps : Nat) : Reading (List Stmt) := do
  if ← atMark .endOfInput then expected "expression"
  else
    let all ← statement steps (phrase steps nestingRoom)
    if ← atMark .endOfInput then return all else expected "end of input"

/-- Runs a reader on a token list, with a loop bound that its length gives. -/
def ofTokens {α : Type} (reading : Nat → Reading α) (empty : α) (tokens : List Token) :
    Except Fault α :=
  match Cursor.ofTokens? tokens with
  | none => .ok empty
  | some cursor => (reading tokens.length).run' cursor

end Reading

/-- The program that a token list with block marks stands for. -/
def Program.ofTokens (tokens : List Token) : Except Fault Program :=
  Reading.ofTokens Reading.program ⟨⟨none, .origin, .origin⟩, []⟩ tokens

/-- The one statement that a token list with block marks stands for. -/
def Stmt.ofTokens (tokens : List Token) : Except Fault (List Stmt) :=
  Reading.ofTokens Reading.single [] tokens

/-- The program of a source. -/
def Program.ofSource (file : Option Text) (source : Text) : Except Failure Program := do
  let tokens ← layoutTokens file source
  Failure.lift (Program.ofTokens tokens)

/-- The one statement of a source. -/
def Stmt.ofSource (file : Option Text) (source : Text) : Except Failure (List Stmt) := do
  let tokens ← layoutTokens file source
  Failure.lift (Stmt.ofTokens tokens)

end Offside
