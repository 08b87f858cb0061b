import Offside.Proofs.Layout.Columns
import Offside.Proofs.Programs.Reading
import Offside.Proofs.Tokens.LineFeeds

namespace Offside

/-!
# The same text at another place of a line

A text that goes on in a line is read alike wherever it starts in the line: its tokens have the
same symbols, lie as far from each other, and start further lines in the same columns.  So it is
laid out alike, and the grammar sees the same terminals.
-/

open Layout TokenStream

namespace Layout

/-- Tokens with the same symbol, all as far from each other: what starts or stops at `here` in
the one list does so at `there` in the other. -/
def Likeness.displaced (here there : Nat) : Likeness where
  like token other :=
    token.symbol = other.symbol ∧
      token.span.start.offset + there = other.span.start.offset + here ∧
        token.span.stop.offset + there = other.span.stop.offset + here
  symbol_eq alike := alike.1
  atStart alike _ := ⟨rfl, alike.2.1, alike.2.1⟩

variable {here there : Nat}

/-- The grammar sees no difference between texts at different places. -/
theorem terminalsAfter_displaced
    {before other : Option Token} {tokens others : List Token}
    (first : Option.Rel (Likeness.displaced here there).like before other)
    (alike : List.Forall₂ (Likeness.displaced here there).like tokens others) :
    terminalsAfter before tokens = terminalsAfter other others := by
  induction alike generalizing before other with
  | nil => rfl
  | @cons token otherToken tokens others sameToken _ hypothesis =>
    have sameTerminal : Terminal.ofToken before token = .ofToken other otherToken := by
      obtain ⟨sameSymbol, sameStart, -⟩ := sameToken
      unfold Terminal.ofToken Token.isMark
      rw [sameSymbol]
      cases first with
      | none => rfl
      | @some last otherLast sameLast =>
        obtain ⟨sameSymbol, -, sameStop⟩ := sameLast
        have touches : (last.span.stop.offset == token.span.start.offset) =
            (otherLast.span.stop.offset == otherToken.span.start.offset) := by
          rw [Bool.eq_iff_iff, beq_iff_eq, beq_iff_eq]
          omega
        rw [Option.any_some, Option.any_some, sameSymbol, touches]
    rw [terminalsAfter, terminalsAfter, sameTerminal, hypothesis (.some sameToken)]

/-- Of the symbol before, the layout asks only whether it opens a block. -/
theorem resolveFrom_previous
    {indents : Indents} {stack : Option Stack} {previous other : Symbol} {atLineStart : Bool}
    (sameOpening : opensBlock previous = opensBlock other)
    (tokens : List Token) :
    resolveFrom indents ⟨stack, some previous, atLineStart⟩ tokens =
      resolveFrom indents ⟨stack, some other, atLineStart⟩ tokens := by
  induction tokens generalizing atLineStart with
  | nil => rfl
  | cons token tokens hypothesis =>
    have arrives : arrive indents ⟨stack, some previous, atLineStart⟩ token =
        arrive indents ⟨stack, some other, atLineStart⟩ token := by
      unfold arrive startLine
      rw [Option.any_some, Option.any_some, sameOpening]
    rw [resolveFrom, resolveFrom, arrives, hypothesis]

end Layout

/-- Positions move on alike. -/
theorem Position.moved_advanceBy
    {start place : Position} {here there : Nat}
    (moved : start.offset + there = place.offset + here)
    (text : Text) :
    (start.advanceBy text).offset + there = (place.advanceBy text).offset + here := by
  rw [advanceBy_offset, advanceBy_offset]
  omega

namespace TokenStream

variable {file : Option Text} {here there : Nat}

/-- The end of input at another place. -/
theorem endTokens_correspond
    {last : Reader} {place : Position}
    (moved : last.position.offset + there = place.offset + here)
    (starts : Bool) :
    Corresponds .same (.displaced here there) [] [] starts
      (endTokens file last) (endTokens file { last with position := place }) := by
  unfold endTokens
  cases last.inLine with
  | true => exact .newline rfl rfl (.ending rfl ⟨rfl, moved, moved⟩)
  | false => exact .ending rfl ⟨rfl, moved, moved⟩

/-- A text is read alike at another place; where a line starts, in the same column. -/
theorem Passage.displaced
    {reader last : Reader} {text rest : Text} {tokens : List Token} {indents : List (Nat × Nat)}
    (passage : Passage file reader text tokens indents last rest)
    (atEnd : rest = [])
    (place : Position)
    (sameColumn : reader.inLine = false → reader.position.column = place.column)
    (moved : reader.position.offset + there = place.offset + here) :
    ∃ others records final,
      Passage file { reader with position := place } text others records final [] ∧
        Corresponds .same (.displaced here there) [] [] (!reader.inLine)
          (tokens ++ endTokens file last) (others ++ endTokens file final) := by
  induction passage generalizing place with
  | done =>
    subst atEnd
    exact ⟨[], [], _, .done, endTokens_correspond moved _⟩
  | lineEnd _ hypothesis =>
    obtain ⟨others, records, final, passage, corresponds⟩ :=
      hypothesis atEnd (place.advance (.scalar '\n')) (fun _ => rfl)
        (Position.moved_advanceBy moved [.scalar '\n'])
    exact ⟨_, records, final, .lineEnd passage, .newline rfl rfl corresponds⟩
  | emptyLine _ hypothesis =>
    obtain ⟨others, records, final, passage, corresponds⟩ :=
      hypothesis atEnd (place.advance (.scalar '\n')) (fun _ => rfl)
        (Position.moved_advanceBy moved [.scalar '\n'])
    exact ⟨others, records, final, .emptyLine passage, corresponds⟩
  | @blank _ _ _ code _ _ _ _ _ isBlank _ hypothesis =>
    obtain ⟨others, records, final, passage, corresponds⟩ :=
      hypothesis atEnd (place.advance code)
        (fun starts => Position.advance_column (sameColumn starts) code)
        (Position.moved_advanceBy moved [code])
    exact ⟨others, records, final, .blank isBlank passage, corresponds⟩
  | @comment _ _ _ body _ _ _ _ _ inBody atLineEnd _ hypothesis =>
    obtain ⟨others, records, final, passage, corresponds⟩ :=
      hypothesis atEnd (place.advanceBy (.scalar '#' :: body))
        (fun starts => Position.advanceBy_column (sameColumn starts) _)
        (Position.moved_advanceBy moved (.scalar '#' :: body))
    exact ⟨others, records, final, .comment inBody atLineEnd passage, corresponds⟩
  | @token start inLine _ first tail _ _ symbol _ _ _ scanned _ hypothesis =>
    have behind := Position.moved_advanceBy moved (first :: tail)
    obtain ⟨others, records, final, passage, corresponds⟩ :=
      hypothesis atEnd (place.advanceBy (first :: tail)) nofun behind
    have visible := Token.isVisible_iff.mp
      (pieceToken_isVisible file scanned (first :: tail) start)
    refine ⟨_, _, final, .token scanned passage,
      .visible ⟨rfl, moved, behind⟩ visible.1 visible.2 ?_ corresponds⟩
    cases inLine with
    | true => exact nofun
    | false => exact fun _ => sameColumn rfl

end TokenStream

end Offside
