import Offside.Proofs.Layout.Indents
import Offside.Proofs.Tokens.Lossless

namespace Offside

/-!
# Tokens stand in the order of the source

The spans of the tokens of a source follow each other without overlapping.  The layout keeps
this: it leaves newlines out, and the marks that it puts in are empty and stand where the
token behind them starts.
-/

/-- Spans that run forward, follow each other without overlapping, and lie between two
offsets. -/
def InOrder (low high : Nat) : List Span → Prop
  | [] => low ≤ high
  | span :: spans =>
    low ≤ span.start.offset ∧ span.start.offset ≤ span.stop.offset ∧
      InOrder span.stop.offset high spans

namespace InOrder

variable {low middle high : Nat} {spans others : List Span}

theorem le (inOrder : InOrder low high spans) : low ≤ high := by
  induction spans generalizing low with
  | nil => exact inOrder
  | cons span spans hypothesis =>
    obtain ⟨starts, forward, rest⟩ := inOrder
    exact Nat.le_trans starts (Nat.le_trans forward (hypothesis rest))

theorem lower {less : Nat} (inOrder : InOrder low high spans) (below : less ≤ low) :
    InOrder less high spans := by
  cases spans with
  | nil => exact Nat.le_trans below inOrder
  | cons span spans => exact ⟨Nat.le_trans below inOrder.1, inOrder.2⟩

theorem append (first : InOrder low middle spans) (second : InOrder middle high others) :
    InOrder low high (spans ++ others) := by
  induction spans generalizing low with
  | nil => exact second.lower first
  | cons span spans hypothesis =>
    exact ⟨first.1, first.2.1, hypothesis first.2.2⟩

theorem raise {more : Nat} (inOrder : InOrder low high spans) (above : high ≤ more) :
    InOrder low more spans := by
  have raised : InOrder low more (spans ++ []) := inOrder.append above
  rwa [List.append_nil] at raised

theorem bounds (inOrder : InOrder low high spans) {span : Span} (member : span ∈ spans) :
    low ≤ span.start.offset ∧ span.start.offset ≤ span.stop.offset ∧ span.stop.offset ≤ high := by
  induction spans generalizing low with
  | nil => cases member
  | cons first spans hypothesis =>
    obtain ⟨starts, forward, rest⟩ := inOrder
    rcases List.mem_cons.mp member with rfl | inRest
    · exact ⟨starts, forward, rest.le⟩
    · have later := hypothesis rest inRest
      omega

theorem pairwise (inOrder : InOrder low high spans) :
    spans.Pairwise fun first second => first.stop.offset ≤ second.start.offset := by
  induction spans generalizing low with
  | nil => exact .nil
  | cons span spans hypothesis =>
    refine .cons (fun second member => ?_) (hypothesis inOrder.2.2)
    exact (inOrder.2.2.bounds member).1

/-- Spans reach no further than the last of them. -/
theorem upto_last
    {last : Span}
    (inOrder : InOrder low high spans)
    (isLast : spans.getLast? = some last) :
    InOrder low last.stop.offset spans := by
  induction spans generalizing low with
  | nil => cases isLast
  | cons span spans hypothesis =>
    obtain ⟨starts, forward, rest⟩ := inOrder
    refine ⟨starts, forward, ?_⟩
    cases spans with
    | nil =>
      cases isLast
      exact Nat.le_refl _
    | cons => exact hypothesis rest (by rwa [List.getLast?_cons_cons] at isLast)

end InOrder

/-- Tokens that are laid over a text stand in its order. -/
theorem Tiles.inOrder
    {passed left : Text} {tokens : List Token}
    (tiles : Tiles passed left tokens) :
    InOrder passed.length (passed.length + left.length) (tokens.map Token.span) := by
  induction tiles with
  | nil => exact Nat.le_refl _
  | @cons passed gap piece left token tokens _ starts stops _ _ hypothesis =>
    have startOffset : token.span.start.offset = passed.length + gap.length := by
      rw [starts, Position.origin_advanceBy_offset, List.length_append]
    have stopOffset : token.span.stop.offset = (passed ++ gap ++ piece).length := by
      rw [stops, Position.origin_advanceBy_offset]
    refine ⟨?_, ?_, ?_⟩
    · omega
    · simp only [stopOffset, List.length_append]
      omega
    · rw [stopOffset]
      refine hypothesis.raise ?_
      simp only [List.length_append]
      omega

namespace Layout

variable {low high : Nat} {token : Token} {tokens : List Token}

/-- Marks stand between what comes before a token and the token. -/
theorem marksAt_inOrder
    (marks : List Mark)
    (inOrder : InOrder low high ((token :: tokens).map Token.span)) :
    InOrder low high ((marksAt token marks ++ token :: tokens).map Token.span) := by
  induction marks generalizing low with
  | nil => exact inOrder
  | cons mark marks hypothesis =>
    exact ⟨inOrder.1, Nat.le_refl _, hypothesis ⟨Nat.le_refl _, inOrder.2⟩⟩

theorem resolveFrom_inOrder
    (indents : Indents)
    (state : State)
    {out : List Token}
    (inOrder : InOrder low high (tokens.map Token.span))
    (resolved : resolveFrom indents state tokens = .ok out) :
    InOrder low high (out.map Token.span) := by
  induction tokens generalizing state low out with
  | nil =>
    cases resolved
    exact inOrder
  | cons token rest hypothesis =>
    have behind : InOrder token.span.stop.offset high (rest.map Token.span) := inOrder.2.2
    rw [resolveFrom] at resolved
    split at resolved
    · -- A newline is left out.
      have skipped : InOrder low high (rest.map Token.span) :=
        behind.lower (Nat.le_trans inOrder.1 inOrder.2.1)
      exact hypothesis _ skipped resolved
    split at resolved
    · cases resolved
      exact marksAt_inOrder _ ⟨inOrder.1, inOrder.2.1, behind.le⟩
    split at resolved
    · cases resolved
    simp only at resolved
    split at resolved
    · cases resolved
    · next later laidOut =>
        cases resolved
        rw [List.append_assoc]
        have placed : InOrder low high ((token :: later).map Token.span) :=
          ⟨inOrder.1, inOrder.2.1, hypothesis _ behind laidOut⟩
        rw [marksAt, marksAt, ← List.append_assoc, ← List.map_append]
        exact marksAt_inOrder _ placed

end Layout

open TokenStream (endTokens)

/-- The tokens of a laid out source stand in its order. -/
theorem layoutTokens_inOrder
    {file : Option Text} {source : Text} {tokens : List Token}
    (laidOut : layoutTokens file source = .ok tokens) :
    InOrder 0 source.length (tokens.map Token.span) := by
  obtain ⟨raw, indents, last, passage⟩ :=
    exists_passage_of_tokenize (failure_eq_none_of_layoutTokens laidOut)
  have tiles : Tiles [] source (raw ++ endTokens file last) :=
    passage.tiles rfl (by unfold endTokens; split <;> simp) fun _ =>
      TokenStream.Passage.endTokens_tiles
  have inOrder := tiles.inOrder
  rw [List.length_nil, Nat.zero_add] at inOrder
  rw [layoutTokens_eq_of_passage passage] at laidOut
  cases resolved : Layout.resolve [] (raw ++ endTokens file last) with
  | error => rw [resolved] at laidOut; cases laidOut
  | ok =>
    rw [resolved] at laidOut
    cases laidOut
    exact Layout.resolveFrom_inOrder [] .initial inOrder resolved

end Offside
