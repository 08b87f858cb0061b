import Offside.Proofs.Layout.Order
import Offside.Proofs.Syntax.Provenance
import Offside.Proofs.Syntax.Regular

namespace Offside

/-!
# Spans nest

A program consists of nodes of its source, and the span of every node holds the spans of the
nodes below it, in order and without overlaps.  A source that cannot be read is refused at one
of its places.

Spans are made in several ways: from one token, from one node through another, or from a
token through the last one that was passed.  What they have in common is where they lie.  A
reader that starts at a cursor gives trees that lie between the start of the current token,
the front of the cursor, and the end of the last token that it passes, the reach of the cursor
where it stops.  The reach never passes the front, so trees that are read one after another
lie in order.
-/

/-! ## Trees in order -/

variable {origin : Provenance} {start : Token}

/-- The parts of a node lie in order inside its span. -/
def Node.Encloses (node : Node) : Prop :=
  InOrder node.span.start.offset node.span.stop.offset (node.parts.map Node.span)

/-- A node of the source whose parts lie in order inside its span. -/
structure Node.Placed (origin : Provenance) (node : Node) : Prop where
  springs : node.Springs origin
  encloses : node.Encloses

/-- Trees of the source whose spans nest, in order between two offsets. -/
structure Laid (origin : Provenance) (low high : Nat) (nodes : List Node) : Prop where
  inOrder : InOrder low high (nodes.map Node.span)
  nested : ∀ node ∈ nodes, node.Throughout (Node.Placed origin)

namespace Laid

variable {low middle high : Nat} {nodes others : List Node} {node : Node}

theorem nil (le : low ≤ high) : Laid origin low high [] :=
  ⟨le, List.forall_mem_nil _⟩

theorem le (laid : Laid origin low high nodes) : low ≤ high :=
  laid.inOrder.le

theorem lower
    {less : Nat}
    (laid : Laid origin low high nodes)
    (below : less ≤ low) :
    Laid origin less high nodes :=
  ⟨laid.inOrder.lower below, laid.nested⟩

theorem raise
    {more : Nat}
    (laid : Laid origin low high nodes)
    (above : high ≤ more) :
    Laid origin low more nodes :=
  ⟨laid.inOrder.raise above, laid.nested⟩

/-- Nodes within two stretches, one behind the other, are laid within both together. -/
theorem append
    (first : Laid origin low middle nodes)
    (second : Laid origin middle high others) :
    Laid origin low high (nodes ++ others) := by
  refine ⟨?_, List.forall_mem_append.mpr ⟨first.nested, second.nested⟩⟩
  rw [List.map_append]
  exact first.inOrder.append second.inOrder

/-- A node around parts that lie in order. -/
theorem around
    (springs : node.Springs origin)
    (starts : low ≤ node.span.start.offset)
    (stops : node.span.stop.offset ≤ high)
    (parts : Laid origin node.span.start.offset node.span.stop.offset node.parts) :
    Laid origin low high [node] :=
  ⟨⟨starts, parts.le, stops⟩,
    List.forall_mem_singleton.mpr (.intro ⟨springs, parts.inOrder⟩ parts.nested)⟩

/-- The first of some nodes starts where a token starts. -/
theorem covers (laid : Laid origin low high (node :: nodes)) : origin.Covers node.span := by
  obtain ⟨placed, _⟩ := laid.nested node List.mem_cons_self
  exact placed.springs.covers

/-- Nodes are laid from where the first of them starts. -/
theorem from_first (laid : Laid origin low high (node :: nodes)) :
    Laid origin node.span.start.offset high (node :: nodes) :=
  ⟨⟨Nat.le_refl _, laid.inOrder.2⟩, laid.nested⟩

/-- The last node ends within the bound. -/
theorem last_le
    {last : Node}
    (laid : Laid origin low high nodes)
    (isLast : nodes.getLast? = some last) :
    last.span.stop.offset ≤ high :=
  (laid.inOrder.bounds (List.mem_map_of_mem (List.mem_of_getLast? isLast))).2.2

/-- Nodes are laid up to where the last of them ends. -/
theorem upto_last
    {last : Node}
    (laid : Laid origin low high nodes)
    (isLast : nodes.getLast? = some last) :
    Laid origin low last.span.stop.offset nodes := by
  refine ⟨laid.inOrder.upto_last ?_, laid.nested⟩
  rw [List.getLast?_map, isLast]
  rfl

end Laid

/-! ## Cursors -/

theorem Token.ne_end_of_isMark
    {token : Token} {mark : Mark}
    (isMark : token.isMark mark = true)
    (other : mark ≠ .endOfInput) :
    token.isMark .endOfInput = false := by
  rw [Token.isMark, of_decide_eq_true isMark]
  simpa using other

namespace Cursor

/-- Where the current token starts. -/
def front (cursor : Cursor) : Nat :=
  cursor.current.span.start.offset

/-- Where the last token ends that was passed. -/
def reach (cursor : Cursor) : Nat :=
  cursor.before.elim cursor.front fun token => token.span.stop.offset

/-- A cursor among tokens of the source that stand in order and end in the end of input. -/
structure Ordered (origin : Provenance) (limit : Nat) (cursor : Cursor) : Prop where
  among : cursor.From origin
  inOrder : InOrder cursor.reach limit ((cursor.current :: cursor.after).map Token.span)
  endsOnce : EndsOnce (cursor.current :: cursor.after)

/-- A cursor that a reader may reach from another one. -/
structure Ahead (origin : Provenance) (limit : Nat) (cursor next : Cursor) : Prop where
  ordered : next.Ordered origin limit
  front : cursor.front ≤ next.front
  reach : cursor.reach ≤ next.reach
  moved : cursor.before.isSome → next.before.isSome

/-- Trees were read that lie between an offset and the last token that was passed. -/
structure Took (origin : Provenance) (cursor : Cursor) (low : Nat) (nodes : List Node) : Prop where
  moved : cursor.before.isSome
  laid : Laid origin low cursor.reach nodes

variable {limit low : Nat} {cursor next last : Cursor}

/-- What was passed ends before what comes next starts. -/
theorem Ordered.reach_le_front (ordered : cursor.Ordered origin limit) :
    cursor.reach ≤ cursor.front :=
  ordered.inOrder.1

theorem Ahead.refl (ordered : cursor.Ordered origin limit) : cursor.Ahead origin limit cursor :=
  ⟨ordered, Nat.le_refl _, Nat.le_refl _, id⟩

/-- Moving on twice is moving on. -/
theorem Ahead.trans
    (first : cursor.Ahead origin limit next)
    (second : next.Ahead origin limit last) :
    cursor.Ahead origin limit last :=
  ⟨second.ordered, Nat.le_trans first.front second.front, Nat.le_trans first.reach second.reach,
    second.moved ∘ first.moved⟩

theorem reach_of_before
    {token : Token}
    (isBefore : cursor.before = some token) :
    cursor.reach = token.span.stop.offset := by
  rw [Cursor.reach, isBefore]
  rfl

/-- A cursor reaches as far as the token that was passed last. -/
theorem passed_stop (moved : cursor.before.isSome) :
    cursor.passed.span.stop.offset = cursor.reach := by
  obtain ⟨token, isBefore⟩ := Option.isSome_iff_exists.mp moved
  rw [Cursor.passed, reach_of_before isBefore, isBefore]
  rfl

/-- Before the end of input the next token is reached, behind the current one. -/
theorem Ordered.next_of_ne_end
    (ordered : cursor.Ordered origin limit)
    (inside : cursor.current.isMark .endOfInput = false) :
    cursor.next.before = some cursor.current ∧ cursor.next.current = cursor.following ∧
      cursor.Ahead origin limit cursor.next := by
  obtain ⟨body, final, shape, isEnd, noEnd⟩ := ordered.endsOnce
  cases body with
  | nil =>
    obtain ⟨rfl, -⟩ := List.cons.inj shape
    cases inside.symm.trans isEnd
  | cons first body =>
    obtain ⟨isFirst, isAfter⟩ := List.cons.inj shape
    have nonempty : cursor.after ≠ [] := by simp [isAfter]
    obtain ⟨token, rest, shape⟩ := List.exists_cons_of_ne_nil nonempty
    have isNext : cursor.next = ⟨some cursor.current, token, rest⟩ := by
      rw [Cursor.next, inside, if_neg Bool.false_ne_true, shape]
    have isFollowing : cursor.following = token := by
      rw [Cursor.following, shape]
      rfl
    have inOrder := ordered.inOrder
    rw [shape] at inOrder isAfter
    obtain ⟨starts, forward, behind⟩ := inOrder
    rw [isNext, isFollowing]
    refine ⟨rfl, rfl, ⟨isNext ▸ ordered.among.next, behind, body, final, isAfter, isEnd, ?_⟩,
      ?_, ?_, fun _ => rfl⟩
    · exact fun other member => noEnd other (List.mem_cons_of_mem _ member)
    · exact Nat.le_trans forward behind.1
    · exact Nat.le_trans starts forward

/-- A cursor stays in order when it moves on. -/
theorem Ordered.ahead_next (ordered : cursor.Ordered origin limit) :
    cursor.Ahead origin limit cursor.next := by
  cases isEnd : cursor.current.isMark .endOfInput with
  | false => exact (ordered.next_of_ne_end isEnd).2.2
  | true =>
    have stays : cursor.next = cursor := by rw [Cursor.next, isEnd, if_pos rfl]
    rw [stays]
    exact .refl ordered

namespace Took

variable {nodes others : List Node} {node : Node}

theorem lower
    {less : Nat}
    (took : cursor.Took origin low nodes)
    (below : less ≤ low) :
    cursor.Took origin less nodes :=
  ⟨took.moved, took.laid.lower below⟩

/-- What was taken is still taken when the cursor moves on. -/
theorem ahead
    (took : cursor.Took origin low nodes)
    (ahead : cursor.Ahead origin limit next) :
    next.Took origin low nodes :=
  ⟨ahead.moved took.moved, took.laid.raise ahead.reach⟩

/-- What is read behind trees lies behind them. -/
theorem append
    (first : cursor.Took origin low nodes)
    (ahead : cursor.Ahead origin limit next)
    (second : last.Took origin next.front others) :
    last.Took origin low (nodes ++ others) := by
  have order : cursor.reach ≤ next.front :=
    Nat.le_trans ahead.reach ahead.ordered.reach_le_front
  exact ⟨second.moved, (first.laid.raise order).append second.laid⟩

/-- A node whose span goes from a token through the last one that was passed. -/
theorem spanning
    (moved : cursor.before.isSome)
    (springs : node.Springs origin)
    (isSpan : node.span = start.span.through cursor.passed.span)
    (starts : low ≤ start.span.start.offset)
    (parts : Laid origin start.span.start.offset cursor.reach node.parts) :
    cursor.Took origin low [node] := by
  have isStart : node.span.start.offset = start.span.start.offset := by rw [isSpan]; rfl
  have isStop : node.span.stop.offset = cursor.reach := by
    rw [isSpan, ← passed_stop moved]
    rfl
  refine ⟨moved, .around springs ?_ ?_ ?_⟩
  · rwa [isStart]
  · rw [isStop]
  · rwa [isStart, isStop]

/-- A node whose span goes from its first part through the last token that was passed. -/
theorem joining
    {first : Node}
    (took : cursor.Took origin low (first :: nodes))
    (springs : origin.Covers first.span → node.Springs origin)
    (isParts : node.parts = first :: nodes)
    (isStart : node.span.start = first.span.start)
    (isStop : node.span.stop.offset = cursor.reach) :
    cursor.Took origin low [node] := by
  refine ⟨took.moved, .around (springs took.laid.covers) ?_ (Nat.le_of_eq isStop) ?_⟩
  · rw [isStart]
    exact took.laid.inOrder.1
  · rw [isStart, isStop, isParts]
    exact took.laid.from_first

/-- A node whose span goes from its first part through its last. -/
theorem between
    {first last : Node}
    (took : cursor.Took origin low (first :: nodes))
    (springs : origin.Covers first.span → node.Springs origin)
    (isLast : (first :: nodes).getLast? = some last)
    (isParts : node.parts = first :: nodes)
    (isStart : node.span.start = first.span.start)
    (isStop : node.span.stop = last.span.stop) :
    cursor.Took origin low [node] := by
  have parts := took.laid.upto_last isLast
  refine ⟨took.moved, .around (springs took.laid.covers) ?_ ?_ ?_⟩
  · rw [isStart]
    exact parts.inOrder.1
  · rw [isStop]
    exact took.laid.last_le isLast
  · rw [isStart, isStop, isParts]
    exact parts.from_first

/-- A token that was passed, as a node of its own. -/
theorem token
    (ordered : cursor.Ordered origin limit)
    (isPassed : next.before = some cursor.current)
    (springs : node.Springs origin)
    (isSpan : node.span = cursor.current.span)
    (noParts : node.parts = []) :
    next.Took origin cursor.front [node] := by
  refine ⟨by rw [isPassed]; rfl, .around springs ?_ ?_ ?_⟩
  · rw [isSpan]
    exact Nat.le_refl _
  · rw [isSpan, reach_of_before isPassed]
  · rw [isSpan, noParts]
    exact .nil ordered.inOrder.2.1

/-- Nothing was read yet behind a token that was passed. -/
theorem nothing
    (ordered : cursor.Ordered origin limit)
    (isPassed : next.before = some cursor.current) :
    next.Took origin cursor.front [] := by
  refine ⟨by rw [isPassed]; rfl, .nil ?_⟩
  rw [reach_of_before isPassed]
  exact ordered.inOrder.2.1

end Took

end Cursor

/-! ## Readers -/

namespace Reading

/-- A reader moves ahead, and something holds of where it stops and of what it gives, or it
fails at a place of the source. -/
def Lays {α : Type} (origin : Provenance) (limit : Nat) (reading : Reading α) (cursor : Cursor)
    (good : Cursor → α → Prop) : Prop :=
  Meets (fun pair => cursor.Ahead origin limit pair.2 ∧ good pair.2 pair.1) (Fault.From origin)
    (reading cursor)

/-- A reader gives trees that lie between the front of the cursor where it starts and the
reach of the cursor where it stops. -/
def LaysTrees {α : Type} (origin : Provenance) (limit : Nat) (reading : Reading α)
    (nodes : α → List Node) : Prop :=
  ∀ cursor, cursor.Ordered origin limit →
    Lays origin limit reading cursor fun next value =>
      next.Took origin cursor.front (nodes value)

namespace Lays

variable {α β : Type} {limit : Nat} {cursor : Cursor} {good : Cursor → α → Prop}

theorem pure
    {value : α}
    (ordered : cursor.Ordered origin limit)
    (holds : good cursor value) :
    Lays origin limit (Pure.pure value) cursor good :=
  ⟨.refl ordered, holds⟩

/-- Two readers lay their trees one after the other. -/
theorem bind
    {reading : Reading α} {continuation : α → Reading β} {middle : Cursor → α → Prop}
    {good : Cursor → β → Prop}
    (first : Lays origin limit reading cursor middle)
    (second : ∀ next value, cursor.Ahead origin limit next → middle next value →
      Lays origin limit (continuation value) next good) :
    Lays origin limit (reading >>= continuation) cursor good := by
  refine Meets.bind first fun pair ⟨ahead, holds⟩ => ?_
  exact (second pair.2 pair.1 ahead holds).mono fun _ ⟨further, good⟩ =>
    ⟨ahead.trans further, good⟩

/-- A reader that only looks. -/
theorem peek
    {reading : Reading α} {continuation : α → Reading β} {good : Cursor → β → Prop} {seen : α}
    (stays : reading cursor = .ok (seen, cursor))
    (second : Lays origin limit (continuation seen) cursor good) :
    Lays origin limit (reading >>= continuation) cursor good := by
  show Meets _ _ (reading cursor >>= fun pair => continuation pair.1 pair.2)
  rw [stays]
  exact second

/-- A reader may fail at a place of the source. -/
theorem failAt
    {span : Span}
    (covers : origin.Covers span)
    (cause : SyntacticCause) :
    Lays origin limit (Reading.failAt cause span : Reading α) cursor good :=
  ⟨.syntactic cause, span, rfl, rfl, covers⟩

variable (ordered : cursor.Ordered origin limit)
include ordered

/-- It fails at the current token where it expects something else. -/
theorem expected (what : Text) :
    Lays origin limit (Reading.expected what : Reading α) cursor good := by
  refine .peek rfl ?_
  split <;> exact .failAt ordered.among.current.covers _

theorem advance :
    Lays origin limit Reading.advance cursor fun next token =>
      next = cursor.next ∧ token = cursor.current :=
  ⟨ordered.ahead_next, rfl, rfl⟩

theorem passMark (mark : Mark) :
    Lays origin limit (Reading.passMark mark) cursor fun _ _ => True := by
  refine .peek rfl ?_
  split
  · exact .bind (.advance ordered) fun _ _ ahead _ => .pure ahead.ordered trivial
  · exact .pure ordered trivial

theorem requireMark
    (mark : Mark)
    (what : Text) :
    Lays origin limit (Reading.requireMark mark what) cursor fun _ _ => True := by
  refine .peek rfl ?_
  split
  · exact ⟨ordered.ahead_next, trivial⟩
  · exact .expected ordered what

/-- A name is given with its token. -/
theorem requireName (what : Text) :
    Lays origin limit (Reading.requireName what) cursor fun _ pair => pair.1 = cursor.current := by
  refine .peek rfl ?_
  split
  · exact .bind (.advance ordered) fun _ _ ahead _ => .pure ahead.ordered rfl
  · exact .expected ordered what

/-- The closing bracket is the current token, and is passed. -/
theorem closeBracket
    {opening : Token} {closer : Mark}
    (fromSource : opening.From origin)
    (noEnd : closer ≠ .endOfInput) :
    Lays origin limit (Reading.closeBracket opening closer) cursor fun next token =>
      token = cursor.current ∧ next.before = some cursor.current := by
  refine .peek rfl ?_
  split
  · next mark isMark =>
      split
      · next isCloser =>
          have inside : cursor.current.isMark .endOfInput = false := by
            rw [Token.isMark, isMark]
            simpa [isCloser] using noEnd
          exact ⟨ordered.ahead_next, rfl, (ordered.next_of_ne_end inside).1⟩
      split
      · exact .failAt fromSource.covers _
      split
      · exact .failAt ordered.among.current.covers _
      · exact .expected ordered _
  · exact .expected ordered _

/-- Parameters have no trees, and repeated ones are refused at their own place. -/
theorem parametersFrom
    (terminator : Mark)
    (steps : Nat)
    (names : List Text) :
    Lays origin limit (Reading.parametersFrom terminator steps names) cursor fun _ _ => True := by
  induction steps generalizing names cursor with
  | zero => exact .pure ordered trivial
  | succ steps hypothesis =>
    refine .peek rfl ?_
    split
    · refine .bind (.advance ordered) fun _ _ ahead _ => ?_
      split
      · exact .failAt ordered.among.current.covers _
      · exact hypothesis ahead.ordered _
    · refine .peek rfl ?_
      split
      · exact .pure ordered trivial
      · exact .expected ordered _

/-- Looking for a key that is a name does not move the cursor. -/
theorem keyName? :
    Lays origin limit Reading.keyName? cursor fun next seen =>
      next = cursor ∧ (seen ≠ none → cursor.current.isMark .endOfInput = false) := by
  refine .peek rfl ?_
  split
  · next name isName =>
      have noEnd : cursor.current.isMark .endOfInput = false := by
        rw [Token.isMark, isName]
        rfl
      refine .peek rfl ?_
      split <;> exact .pure ordered ⟨rfl, fun _ => noEnd⟩
  · exact .pure ordered ⟨rfl, fun isSome => (isSome rfl).elim⟩

/-- A reader ends by making a node of parts, which spans from a token through the last one that
was passed. -/
theorem spanned
    {build : Span → α} {node : α → Node} {parts : List Node}
    (fromSource : start.From origin)
    (took : cursor.Took origin start.span.start.offset parts)
    (made : ∀ span, (origin.Covers span → (node (build span)).Springs origin) ∧
      (node (build span)).span = span ∧ (node (build span)).parts = parts) :
    Lays origin limit (do return build (← Reading.spanFrom start)) cursor fun next value =>
      next.Took origin start.span.start.offset [node value] := by
  obtain ⟨springs, isSpan, isParts⟩ := made (start.span.through cursor.passed.span)
  refine .peek rfl (.pure ordered (.spanning took.moved ?_ isSpan (Nat.le_refl _) ?_))
  · exact springs (fromSource.covers.through _)
  · rw [isParts]
    exact took.laid

end Lays

/-! ## Readers of trees -/

namespace LaysTrees

variable {limit low : Nat} {cursor : Cursor} {nested : Phrase → Reading Expr}
  (inside : ∀ form, LaysTrees origin limit (nested form) fun root => [.expr root]) (steps : Nat)

include inside

/-- A binding starts with its name, or with the word in front of it. -/
theorem bindingFrom
    (ordered : cursor.Ordered origin limit)
    (fromSource : start.From origin)
    (starts : start.span.start.offset ≤ cursor.front) :
    Lays origin limit (Reading.bindingFrom steps nested start) cursor fun next stmt =>
      next.Took origin start.span.start.offset [.stmt stmt] := by
  refine .bind (.requireName ordered _) fun named ⟨nameToken, name⟩ aheadName isCurrent => ?_
  refine .bind (.parametersFrom aheadName.ordered _ _ _) fun listed parameters aheadList _ => ?_
  refine .bind (.requireMark aheadList.ordered _ _) fun assigned _ aheadAssign _ => ?_
  refine .bind (inside .body _ aheadAssign.ordered) fun next body aheadBody took => ?_
  have order : cursor.front ≤ assigned.front :=
    (aheadName.trans (aheadList.trans aheadAssign)).front
  have tookValue : next.Took origin start.span.start.offset [.expr (if parameters.isEmpty then body
      else .function (nameToken.span.through body.span) parameters body)] := by
    split
    · exact took.lower (Nat.le_trans starts order)
    · -- The function of a binding with parameters spans from the name through the body.
      have isName : nameToken = cursor.current := isCurrent
      have isStart : nameToken.span.start.offset = cursor.front := by
        rw [isName]
        rfl
      have springs : origin.Covers nameToken.span := by
        rw [isName]
        exact ordered.among.current.covers
      have stops : body.span.stop.offset ≤ next.reach := took.laid.inOrder.2.2
      refine ⟨took.moved, .around springs ?_ stops ?_⟩
      · exact Nat.le_trans starts (Nat.le_of_eq isStart.symm)
      · exact (took.laid.upto_last rfl).lower (Nat.le_trans (Nat.le_of_eq isStart) order)
  exact .spanned aheadBody.ordered fromSource tookValue fun _ => ⟨id, rfl, rfl⟩

/-- The bindings of a group are laid one behind the other. -/
theorem bindingsFrom
    {bindings : List Stmt}
    (rounds : Nat)
    (ordered : cursor.Ordered origin limit)
    (took : cursor.Took origin low (bindings.map .stmt)) :
    Lays origin limit (Reading.bindingsFrom steps nested rounds bindings) cursor fun next all =>
      next.Took origin low (all.map .stmt) := by
  induction rounds generalizing cursor bindings with
  | zero => exact .pure ordered took
  | succ rounds hypothesis =>
    refine .bind (.passMark ordered _) fun separated found ahead _ => ?_
    split
    · refine .peek rfl ?_
      refine .bind (bindingFrom inside steps ahead.ordered ahead.ordered.among.current
          (Nat.le_refl _))
        fun next binding aheadBinding tookBinding => ?_
      refine hypothesis aheadBinding.ordered ?_
      simpa using took.append ahead tookBinding
    · exact .pure ahead.ordered (took.ahead ahead)

/-- A single binding starts with `let`, those of a group with their names. -/
theorem letStatement :
    LaysTrees origin limit (Reading.letStatement steps nested) fun stmts => stmts.map .stmt := by
  intro cursor ordered
  refine .bind (.advance ordered) ?_
  rintro opened _ aheadLet ⟨-, rfl⟩
  refine .bind (.passMark aheadLet.ordered _) fun entered found aheadBlock _ => ?_
  have order : cursor.front ≤ entered.front := (aheadLet.trans aheadBlock).front
  split
  · refine .peek rfl ?_
    refine .bind (bindingFrom inside steps aheadBlock.ordered aheadBlock.ordered.among.current
        (Nat.le_refl _))
      fun behind first aheadFirst tookFirst => ?_
    refine .bind (bindingsFrom inside steps steps aheadFirst.ordered tookFirst)
      fun closing bindings aheadBindings took => ?_
    refine .bind (.requireMark aheadBindings.ordered _ _) fun next _ aheadEnd _ => ?_
    exact .pure aheadEnd.ordered ((took.ahead aheadEnd).lower order)
  · refine .bind (bindingFrom inside steps aheadBlock.ordered ordered.among.current order)
      fun next binding aheadBinding took => ?_
    exact .pure aheadBinding.ordered took

theorem varStatement :
    LaysTrees origin limit (Reading.varStatement nested) fun stmt => [.stmt stmt] := by
  intro cursor ordered
  refine .bind (.advance ordered) ?_
  rintro opened _ aheadVar ⟨-, rfl⟩
  refine .bind (.requireName aheadVar.ordered _) fun named ⟨_, name⟩ aheadName _ => ?_
  refine .bind (.requireMark aheadName.ordered _ _) fun assigned _ aheadAssign _ => ?_
  refine .bind (inside .body _ aheadAssign.ordered) fun next value aheadValue took => ?_
  have order := (aheadVar.trans (aheadName.trans aheadAssign)).front
  exact .spanned aheadValue.ordered ordered.among.current (took.lower order) fun _ => ⟨id, rfl, rfl⟩

theorem assignment (name : Text) :
    LaysTrees origin limit (Reading.assignment nested name) fun stmt => [.stmt stmt] := by
  intro cursor ordered
  refine .bind (.advance ordered) ?_
  rintro named _ aheadName ⟨-, rfl⟩
  refine .bind (.advance aheadName.ordered) fun assigned _ aheadAssign _ => ?_
  refine .bind (inside .body _ aheadAssign.ordered) fun next value aheadValue took => ?_
  have order := (aheadName.trans aheadAssign).front
  exact .spanned aheadValue.ordered ordered.among.current (took.lower order) fun _ => ⟨id, rfl, rfl⟩

/-- A function starts with `fun` and ends with its body. -/
theorem function :
    LaysTrees origin limit (Reading.function steps nested) fun root => [.expr root] := by
  intro cursor ordered
  refine .bind (.advance ordered) ?_
  rintro opened _ aheadWord ⟨-, rfl⟩
  refine .bind (.parametersFrom aheadWord.ordered _ _ _) fun listed parameters aheadList _ => ?_
  refine .bind (.advance aheadList.ordered) fun arrow _ aheadArrow _ => ?_
  refine .bind (inside .body _ aheadArrow.ordered) fun next body aheadBody took => ?_
  have order := (aheadWord.trans (aheadList.trans aheadArrow)).front
  exact .spanned aheadBody.ordered ordered.among.current (took.lower order) fun _ => ⟨id, rfl, rfl⟩

/-- An expression in parentheses keeps its own span. -/
theorem grouped : LaysTrees origin limit (Reading.grouped nested) fun root => [.expr root] := by
  intro cursor ordered
  refine .bind (.advance ordered) ?_
  rintro opened _ aheadOpen ⟨-, rfl⟩
  refine .peek rfl ?_
  split
  · exact .failAt (ordered.among.current.covers.through _) _
  refine .bind (inside .expression _ aheadOpen.ordered) fun behind root aheadRoot took => ?_
  refine .bind (.closeBracket aheadRoot.ordered ordered.among.current Mark.noConfusion)
    fun next _ aheadClose _ => ?_
  exact .pure aheadClose.ordered ((took.ahead aheadClose).lower aheadOpen.front)

/-- The elements of an array are laid one behind the other. -/
theorem elementsFrom
    {elements : List Expr}
    (rounds : Nat)
    (ordered : cursor.Ordered origin limit)
    (took : cursor.Took origin low (elements.map .expr)) :
    Lays origin limit (Reading.elementsFrom nested rounds elements) cursor fun next roots =>
      next.Took origin low (roots.map .expr) := by
  induction rounds generalizing cursor elements with
  | zero => exact .pure ordered took
  | succ rounds hypothesis =>
    refine .peek rfl ?_
    split
    · exact .pure ordered took
    refine .bind (inside .expression _ ordered) fun behind element aheadElement tookElement => ?_
    have tookMore : behind.Took origin low ((elements ++ [element]).map .expr) := by
      simpa using took.append (.refl ordered) tookElement
    refine .bind (.passMark aheadElement.ordered _) fun next found aheadComma _ => ?_
    split
    · exact hypothesis aheadComma.ordered (tookMore.ahead aheadComma)
    · exact .pure aheadComma.ordered (tookMore.ahead aheadComma)

/-- An array reaches from bracket to bracket. -/
theorem array
    (ordered : cursor.Ordered origin limit)
    (noEnd : cursor.current.isMark .endOfInput = false) :
    Lays origin limit (Reading.array steps nested) cursor fun next root =>
      next.Took origin cursor.front [.expr root] := by
  refine .bind (.advance ordered) ?_
  rintro _ _ aheadOpen ⟨rfl, rfl⟩
  have nothing : cursor.next.Took origin cursor.front [] :=
    .nothing ordered (ordered.next_of_ne_end noEnd).1
  refine .bind (elementsFrom inside steps aheadOpen.ordered nothing)
    fun behind elements aheadElements took => ?_
  refine .bind (.closeBracket aheadElements.ordered ordered.among.current Mark.noConfusion)
    fun next _ aheadClose _ => ?_
  exact .spanned aheadClose.ordered ordered.among.current (took.ahead aheadClose)
    fun _ => ⟨id, rfl, rfl⟩

/-- A key that is a lone name is a node of its own. -/
theorem namedEntry
    (name : Text)
    (ordered : cursor.Ordered origin limit)
    (noEnd : cursor.current.isMark .endOfInput = false) :
    Lays origin limit (Reading.namedEntry nested name) cursor fun next entry =>
      next.Took origin cursor.front [.entry entry] := by
  refine .bind (.advance ordered) ?_
  rintro _ _ aheadKey ⟨rfl, rfl⟩
  have key : cursor.next.Took origin cursor.front [.expr (.string cursor.current.span name)] :=
    .token ordered (ordered.next_of_ne_end noEnd).1 ordered.among.current.covers rfl rfl
  refine .bind (.requireMark aheadKey.ordered _ _) fun colon _ aheadColon _ => ?_
  refine .bind (inside .expression _ aheadColon.ordered) fun next value aheadValue took => ?_
  exact .spanned aheadValue.ordered ordered.among.current (key.append aheadColon took)
    fun _ => ⟨id, rfl, rfl⟩

theorem entryAfter
    {key : Expr}
    (ordered : cursor.Ordered origin limit)
    (fromSource : start.From origin)
    (tookKey : cursor.Took origin start.span.start.offset [.expr key]) :
    Lays origin limit (Reading.entryAfter nested start key) cursor fun next entry =>
      next.Took origin start.span.start.offset [.entry entry] := by
  refine .bind (.advance ordered) fun colon _ aheadColon _ => ?_
  refine .bind (inside .expression _ aheadColon.ordered) fun next value aheadValue took => ?_
  exact .spanned aheadValue.ordered fromSource (tookKey.append aheadColon took)
    fun _ => ⟨id, rfl, rfl⟩

/-- The entries of a map are laid one behind the other. -/
theorem entriesFrom
    {entries : List Entry}
    (rounds : Nat)
    (ordered : cursor.Ordered origin limit)
    (took : cursor.Took origin low (entries.map .entry)) :
    Lays origin limit (Reading.entriesFrom nested rounds entries) cursor fun next all =>
      next.Took origin low (all.map .entry) := by
  induction rounds generalizing cursor entries with
  | zero => exact .pure ordered took
  | succ rounds hypothesis =>
    refine .bind (.passMark ordered _) fun separated found ahead _ => ?_
    split
    · exact .pure ahead.ordered (took.ahead ahead)
    refine .peek rfl ?_
    split
    · exact .pure ahead.ordered (took.ahead ahead)
    have goesOn {next : Cursor} {entry : Entry} (ordered : next.Ordered origin limit)
        (tookEntry : next.Took origin separated.front [.entry entry]) :
        Lays origin limit (Reading.entriesFrom nested rounds (entries ++ [entry])) next
          fun last all => last.Took origin low (all.map .entry) := by
      refine hypothesis ordered ?_
      simpa using took.append ahead tookEntry
    refine .bind (.keyName? ahead.ordered) ?_
    rintro _ name? - ⟨rfl, named⟩
    cases name? with
    | some name =>
      refine .bind (namedEntry inside name ahead.ordered (named nofun))
        fun next entry aheadEntry tookEntry => ?_
      exact goesOn aheadEntry.ordered tookEntry
    | none =>
      refine .peek rfl ?_
      refine .bind (inside .expression _ ahead.ordered) fun behind key aheadKey tookKey => ?_
      refine .peek rfl ?_
      split
      · refine .bind (entryAfter inside aheadKey.ordered ahead.ordered.among.current tookKey)
          fun next entry aheadEntry tookEntry => ?_
        exact goesOn aheadEntry.ordered tookEntry
      · exact .peek rfl (.failAt (ahead.ordered.among.current.covers.through _) _)

theorem membersFrom
    {members : List Expr}
    (rounds : Nat)
    (ordered : cursor.Ordered origin limit)
    (took : cursor.Took origin low (members.map .expr)) :
    Lays origin limit (Reading.membersFrom nested rounds members) cursor fun next roots =>
      next.Took origin low (roots.map .expr) := by
  induction rounds generalizing cursor members with
  | zero => exact .pure ordered took
  | succ rounds hypothesis =>
    refine .bind (.passMark ordered _) fun separated found ahead _ => ?_
    split
    · exact .pure ahead.ordered (took.ahead ahead)
    refine .peek rfl ?_
    split
    · exact .pure ahead.ordered (took.ahead ahead)
    refine .peek rfl ?_
    refine .bind (inside .expression _ ahead.ordered) fun next member aheadMember tookMember => ?_
    refine .peek rfl ?_
    split
    · exact .peek rfl (.failAt (ahead.ordered.among.current.covers.through _) _)
    · refine hypothesis aheadMember.ordered ?_
      simpa using took.append ahead tookMember

/-- A map reaches from brace to brace, around its first entry and the others. -/
theorem mapAfter
    {first : Entry}
    (ordered : cursor.Ordered origin limit)
    (fromSource : start.From origin)
    (tookFirst : cursor.Took origin start.span.start.offset [.entry first]) :
    Lays origin limit (Reading.mapAfter steps nested start first) cursor fun next root =>
      next.Took origin start.span.start.offset [.expr root] := by
  refine .bind (entriesFrom inside steps ordered tookFirst)
    fun behind entries aheadEntries took => ?_
  refine .bind (.closeBracket aheadEntries.ordered fromSource Mark.noConfusion)
    fun next _ aheadClose _ => ?_
  exact .spanned aheadClose.ordered fromSource (took.ahead aheadClose) fun _ => ⟨id, rfl, rfl⟩

/-- So does a set, around its first element. -/
theorem braces : LaysTrees origin limit (Reading.braces steps nested) fun root => [.expr root] := by
  intro cursor ordered
  refine .bind (.advance ordered) ?_
  rintro opened _ aheadOpen ⟨-, rfl⟩
  refine .peek rfl ?_
  split
  · exact .failAt (ordered.among.current.covers.through _) _
  refine .bind (.keyName? aheadOpen.ordered) ?_
  rintro _ name? - ⟨rfl, named⟩
  cases name? with
  | some name =>
    refine .bind (namedEntry inside name aheadOpen.ordered (named nofun))
      fun behind entry aheadEntry took => ?_
    exact mapAfter inside steps aheadEntry.ordered ordered.among.current
      (took.lower aheadOpen.front)
  | none =>
    refine .bind (inside .expression _ aheadOpen.ordered) fun behind first aheadFirst took => ?_
    refine .peek rfl ?_
    split
    · refine .bind (entryAfter inside aheadFirst.ordered aheadOpen.ordered.among.current took)
        fun next entry aheadEntry tookEntry => ?_
      exact mapAfter inside steps aheadEntry.ordered ordered.among.current
        (tookEntry.lower aheadOpen.front)
    · refine .bind (membersFrom inside steps aheadFirst.ordered took)
        fun closing members aheadMembers tookMembers => ?_
      refine .bind (.closeBracket aheadMembers.ordered ordered.among.current Mark.noConfusion)
        fun next _ aheadClose _ => ?_
      have tookAll := (tookMembers.ahead aheadClose).lower aheadOpen.front
      exact .spanned aheadClose.ordered ordered.among.current tookAll fun _ => ⟨id, rfl, rfl⟩

theorem atom : LaysTrees origin limit (Reading.atom steps nested) fun root => [.expr root] := by
  intro cursor ordered
  have leaf {root : Expr} (noEnd : cursor.current.isMark .endOfInput = false)
      (springs : Node.Springs origin (.expr root)) (isSpan : root.span = cursor.current.span)
      (noParts : Node.parts (.expr root) = []) :
      Lays origin limit (do let _ ← Reading.advance; return root) cursor fun next root =>
        next.Took origin cursor.front [.expr root] := by
    refine .bind (.advance ordered) ?_
    rintro _ _ ahead ⟨rfl, -⟩
    have isPassed := (ordered.next_of_ne_end noEnd).1
    exact .pure ahead.ordered (.token ordered isPassed springs isSpan noParts)
  have noEnd {symbol : Symbol} (isSymbol : cursor.current.symbol = symbol)
      (other : decide (symbol = .mark .endOfInput) = false) :
      cursor.current.isMark .endOfInput = false := by
    rwa [Token.isMark, isSymbol]
  refine .peek rfl ?_
  split
  · next value isInt =>
      have number := ordered.among.current.number value isInt
      exact leaf (noEnd isInt rfl) ⟨ordered.among.current.covers, number⟩ rfl rfl
  iterate 6
    next isSymbol => exact leaf (noEnd isSymbol rfl) ordered.among.current.covers rfl rfl
  · exact grouped inside cursor ordered
  · next isSymbol => exact array inside steps ordered (noEnd isSymbol rfl)
  · exact braces inside steps cursor ordered
  · split
    · exact .failAt ordered.among.current.covers _
    · exact .expected ordered _

/-- Each index reaches from its target to its bracket. -/
theorem indicesFrom
    {target : Expr}
    (rounds : Nat)
    (ordered : cursor.Ordered origin limit)
    (took : cursor.Took origin low [.expr target]) :
    Lays origin limit (Reading.indicesFrom nested rounds target) cursor fun next root =>
      next.Took origin low [.expr root] := by
  induction rounds generalizing cursor target with
  | zero => exact .pure ordered took
  | succ rounds hypothesis =>
    refine .peek rfl ?_
    split
    · refine .bind (.advance ordered) ?_
      rintro opened _ aheadOpen ⟨-, rfl⟩
      refine .peek rfl ?_
      split
      · exact .expected aheadOpen.ordered _
      refine .bind (inside .expression _ aheadOpen.ordered) fun behind key aheadKey tookKey => ?_
      refine .bind (.closeBracket aheadKey.ordered ordered.among.current Mark.noConfusion) ?_
      rintro next _ aheadClose ⟨rfl, isPassed⟩
      have both := (took.append aheadOpen tookKey).ahead aheadClose
      refine hypothesis aheadClose.ordered ?_
      exact both.joining id rfl rfl (Cursor.reach_of_before isPassed).symm
    · exact .pure ordered took

theorem indexed : LaysTrees origin limit (Reading.indexed steps nested) fun root => [.expr root] :=
  fun cursor ordered => .bind (atom inside steps cursor ordered) fun _ _ ahead took =>
    indicesFrom inside steps ahead.ordered took

/-- Arguments are laid behind their callee. -/
theorem argumentsFrom
    {callee : Node} {arguments : List Expr}
    (rounds : Nat)
    (ordered : cursor.Ordered origin limit)
    (took : cursor.Took origin low (callee :: arguments.map .expr)) :
    Lays origin limit (Reading.argumentsFrom steps nested rounds arguments) cursor fun next roots =>
      next.Took origin low (callee :: roots.map .expr) := by
  induction rounds generalizing cursor arguments with
  | zero => exact .pure ordered took
  | succ rounds hypothesis =>
    refine .peek rfl ?_
    split
    · exact .pure ordered took
    refine .peek rfl ?_
    split
    · exact .failAt ordered.among.current.covers _
    refine .bind (indexed inside steps cursor ordered) fun next argument ahead tookMore => ?_
    refine hypothesis ahead.ordered ?_
    simpa using took.append (.refl ordered) tookMore

/-- A call reaches from its callee to its last argument, or to the empty parentheses. -/
theorem application :
    LaysTrees origin limit (Reading.application steps nested) fun root => [.expr root] := by
  intro cursor ordered
  refine .bind (indexed inside steps cursor ordered) fun called callee ahead took => ?_
  refine .peek rfl ?_
  split
  · next empty =>
      obtain ⟨isOpen, isClose⟩ := Bool.and_eq_true_iff.mp empty
      obtain ⟨-, isFollowing, -⟩ :=
        ahead.ordered.next_of_ne_end (Token.ne_end_of_isMark isOpen Mark.noConfusion)
      refine .bind (.advance ahead.ordered) ?_
      rintro _ _ aheadOpen ⟨rfl, -⟩
      refine .bind (.advance aheadOpen.ordered) ?_
      rintro _ _ aheadClose ⟨rfl, rfl⟩
      rw [← isFollowing] at isClose
      have isPassed :=
        (aheadOpen.ordered.next_of_ne_end (Token.ne_end_of_isMark isClose Mark.noConfusion)).1
      refine .pure aheadClose.ordered ?_
      exact (took.ahead (aheadOpen.trans aheadClose)).joining id rfl rfl
        (Cursor.reach_of_before isPassed).symm
  · refine .bind (argumentsFrom inside steps steps ahead.ordered took)
      fun next arguments aheadArguments tookAll => ?_
    split
    · exact .pure aheadArguments.ordered (took.ahead aheadArguments)
    · next last isLast =>
        have lastPart : (Node.expr callee :: arguments.map .expr).getLast? = some (.expr last) := by
          simp [List.getLast?_cons, isLast]
        exact .pure aheadArguments.ordered (tookAll.between id lastPart rfl rfl rfl)

/-- A binary expression reaches from its left to its right operand. -/
theorem operatorsFrom
    {left : Expr}
    (least rounds : Nat)
    (ordered : cursor.Ordered origin limit)
    (took : cursor.Took origin low [.expr left]) :
    Lays origin limit (Reading.operatorsFrom nested least rounds left) cursor fun next root =>
      next.Took origin low [.expr root] := by
  induction rounds generalizing cursor left with
  | zero => exact .pure ordered took
  | succ rounds hypothesis =>
    refine .peek rfl ?_
    split
    · exact .pure ordered took
    split
    · exact .pure ordered took
    refine .bind (.advance ordered) fun behind _ aheadOperator _ => ?_
    refine .bind (inside _ _ aheadOperator.ordered) fun next right aheadRight tookRight => ?_
    refine hypothesis aheadRight.ordered ?_
    exact (took.append aheadOperator tookRight).between id rfl rfl rfl rfl

theorem binary (least : Nat) :
    LaysTrees origin limit (Reading.binary steps nested least) fun root => [.expr root] :=
  fun cursor ordered => .bind (application inside steps cursor ordered) fun _ _ ahead took =>
    operatorsFrom inside least steps ahead.ordered took

theorem expression :
    LaysTrees origin limit (Reading.expression steps nested) fun root => [.expr root] := by
  intro cursor ordered
  refine .peek rfl ?_
  split
  · exact function inside steps cursor ordered
  · exact binary inside steps 0 cursor ordered

/-- A statement is laid by the reader of its kind. -/
theorem statement :
    LaysTrees origin limit (Reading.statement steps nested) fun stmts => stmts.map .stmt := by
  intro cursor ordered
  have alone : Lays origin limit (do
      let root ← Reading.expression steps nested
      return [Stmt.expression root.span root]) cursor fun next stmts =>
        next.Took origin cursor.front (stmts.map .stmt) :=
    .bind (expression inside steps cursor ordered) fun _ root ahead took =>
      .pure ahead.ordered (took.between id rfl rfl rfl rfl)
  refine .peek rfl ?_
  split
  · exact letStatement inside steps cursor ordered
  · exact .bind (varStatement inside cursor ordered) fun _ stmt ahead took =>
      .pure ahead.ordered took
  · refine .peek rfl ?_
    split
    · exact .bind (assignment inside _ cursor ordered) fun _ stmt ahead took =>
        .pure ahead.ordered took
    · exact alone
  · exact alone

theorem statementsFrom
    {stmts : List Stmt}
    (rounds : Nat)
    (ordered : cursor.Ordered origin limit)
    (took : cursor.Took origin low (stmts.map .stmt)) :
    Lays origin limit (Reading.statementsFrom steps nested rounds stmts) cursor fun next all =>
      next.Took origin low (all.map .stmt) := by
  induction rounds generalizing cursor stmts with
  | zero => exact .pure ordered took
  | succ rounds hypothesis =>
    refine .bind (.passMark ordered _) fun separated found ahead _ => ?_
    split
    · refine .bind (statement inside steps separated ahead.ordered)
        fun next more aheadMore tookMore => ?_
      refine hypothesis aheadMore.ordered ?_
      simpa using took.append ahead tookMore
    · exact .pure ahead.ordered (took.ahead ahead)

/-- Statements are laid one behind the other. -/
theorem statements (terminator : Mark) :
    LaysTrees origin limit (Reading.statements steps nested terminator)
      fun all => all.map .stmt := by
  intro cursor ordered
  refine .bind (statement inside steps cursor ordered) fun behind first ahead tookFirst => ?_
  refine .bind (statementsFrom inside steps steps ahead.ordered tookFirst)
    fun next all aheadAll took => .peek rfl ?_
  split
  · split
    · exact .failAt aheadAll.ordered.among.current.covers _
    split
    · exact .pure aheadAll.ordered took
    · exact .expected aheadAll.ordered _
  · exact .expected aheadAll.ordered _

/-- A block reaches from the mark that starts it to the one that ends it. -/
theorem block : LaysTrees origin limit (Reading.block steps nested) fun root => [.expr root] := by
  intro cursor ordered
  refine .bind (.advance ordered) ?_
  rintro opened _ aheadStart ⟨-, rfl⟩
  refine .bind (statements inside steps _ opened aheadStart.ordered)
    fun behind all aheadAll took => ?_
  refine .bind (.advance aheadAll.ordered) fun next _ aheadEnd _ => ?_
  have tookAll := (took.ahead aheadEnd).lower aheadStart.front
  exact .spanned aheadEnd.ordered ordered.among.current tookAll fun _ => ⟨id, rfl, rfl⟩

theorem phraseWith (form : Phrase) :
    LaysTrees origin limit (Reading.phraseWith steps nested form) fun root => [.expr root] := by
  cases form with
  | body =>
    intro cursor ordered
    refine .peek rfl ?_
    split
    · exact block inside steps cursor ordered
    · exact expression inside steps cursor ordered
  | expression => exact expression inside steps
  | operand least => exact binary inside steps least

omit inside

/-- Phrases are laid, by induction on the room for nesting. -/
theorem phrase
    (steps room : Nat)
    (form : Phrase) :
    LaysTrees origin limit (Reading.phrase steps room form) fun root => [.expr root] := by
  induction room using Nat.strongRecOn generalizing form with
  | _ room hypothesis =>
    by_cases fits : form.levels ≤ room
    · rw [phrase_of_fits fits]
      exact phraseWith (hypothesis _ (Phrase.sub_levels_lt fits)) steps form
    · rw [phrase_of_not_fits fits]
      exact fun _ ordered => .peek rfl (.failAt ordered.among.current.covers _)

/-- The span of a program goes from its first token through the last that was passed; if there
is no other, it is that of the end of input. -/
theorem program
    (steps : Nat)
    (ordered : cursor.Ordered origin limit)
    (atStart : cursor.before = none) :
    Lays origin limit (Reading.program steps) cursor fun _ root =>
      Laid origin 0 limit [.program root] := by
  have springs := ordered.among.current.covers
  refine .peek rfl ?_
  split
  · have isPassed : cursor.passed = cursor.current := by
      rw [Cursor.passed, atStart]
      rfl
    obtain ⟨-, forward, behind⟩ := ordered.inOrder
    refine .peek rfl (.pure ordered (.around springs (Nat.zero_le _) ?_ (.nil ?_)))
    · show cursor.passed.span.stop.offset ≤ limit
      rw [isPassed]
      exact behind.le
    · show cursor.current.span.start.offset ≤ cursor.passed.span.stop.offset
      rwa [isPassed]
  · refine .bind (statements (phrase steps nestingRoom) steps _ cursor ordered)
      fun next all ahead took => .peek rfl (.pure ahead.ordered ?_)
    have whole : next.Took origin cursor.front
        [.program ⟨cursor.current.span.through next.passed.span, all⟩] :=
      .spanning took.moved springs rfl (Nat.le_refl _) took.laid
    exact (whole.laid.lower (Nat.zero_le _)).raise ahead.ordered.inOrder.le

theorem single
    (steps : Nat)
    (ordered : cursor.Ordered origin limit) :
    Lays origin limit (Reading.single steps) cursor fun next stmts =>
      next.Took origin cursor.front (stmts.map .stmt) := by
  refine .peek rfl ?_
  split
  · exact .expected ordered _
  refine .bind (statement (phrase steps nestingRoom) steps cursor ordered)
    fun next all ahead took => .peek rfl ?_
  split
  · exact .pure ahead.ordered took
  · exact .expected ahead.ordered _

end LaysTrees

end Reading

variable {file : Option Text} {source : Text} {failure : Failure}

/-! ## Sources -/

/-- Nodes that are laid come from the source. -/
theorem Laid.fromSource
    {low high : Nat} {nodes : List Node}
    (laid : Laid origin low high nodes) :
    ∀ node ∈ nodes, node.From origin :=
  fun node member => (laid.nested node member).mono fun _ placed => placed.springs

/-- What a reader gives of the tokens of a source, laid out. -/
theorem Reading.Lays.ofTokens
    {α : Type} {reading : Nat → Reading α} {good : α → Prop} {empty : α}
    {tokens : List Token}
    (lays : ∀ steps cursor, cursor.before = none →
      cursor.Ordered (.ofSource file source) source.length →
      Lays (.ofSource file source) source.length (reading steps) cursor fun _ value => good value)
    (laidOut : layoutTokens file source = .ok tokens)
    (each : ∀ token ∈ tokens, token.From (.ofSource file source)) :
    Meets good (Fault.From (.ofSource file source)) (Reading.ofTokens reading empty tokens) := by
  have inOrder := layoutTokens_inOrder laidOut
  have endsOnce := endsOnce_of_layoutTokens laidOut
  cases tokens with
  | nil =>
    obtain ⟨body, last, shape, -⟩ := endsOnce
    cases body <;> cases shape
  | cons token rest =>
    obtain ⟨tokenFrom, restFrom⟩ := List.forall_mem_cons.mp each
    have ran := lays (rest.length + 1) ⟨none, token, rest⟩ rfl
      ⟨⟨nofun, tokenFrom, restFrom⟩, ⟨Nat.le_refl _, inOrder.2⟩, endsOnce⟩
    show Meets _ _ (reading (rest.length + 1) ⟨none, token, rest⟩ >>= fun pair => .ok pair.1)
    exact Meets.bind ran fun _ holds => holds.2

open Reading in
/-- A program is laid within its source. -/
theorem Program.ofSource_laid
    (file : Option Text)
    (source : Text) :
    Meets (fun program => Laid (.ofSource file source) 0 source.length [.program program])
      (Failure.From (.ofSource file source) source.lines) (Program.ofSource file source) :=
  read_from fun _ laidOut each =>
    Lays.ofTokens (fun steps _ atStart ordered => LaysTrees.program steps ordered atStart)
      laidOut each

/-- A program comes from its source, and so does the place of a failure to read it. -/
theorem Program.ofSource_from
    (file : Option Text)
    (source : Text) :
    Meets (fun program => ∀ stmt ∈ program.statements, stmt.From (.ofSource file source))
      (Failure.From (.ofSource file source) source.lines) (Program.ofSource file source) := by
  refine (ofSource_laid file source).mono fun program laid => ?_
  obtain ⟨_, parts⟩ := laid.fromSource _ List.mem_cons_self
  exact fun stmt member => parts _ (List.mem_map_of_mem member)

open Reading in
theorem Stmt.ofSource_from
    (file : Option Text)
    (source : Text) :
    Meets (fun stmts => ∀ stmt ∈ stmts, stmt.From (.ofSource file source))
      (Failure.From (.ofSource file source) source.lines) (Stmt.ofSource file source) :=
  read_from fun _ => Lays.ofTokens fun steps _ _ ordered =>
    (LaysTrees.single steps ordered).mono fun _ ⟨ahead, took⟩ =>
      ⟨ahead, fun _ member => took.laid.fromSource _ (List.mem_map_of_mem member)⟩

/-- A source that is refused is refused for no cause of an evaluation. -/
theorem Meets.isRuntime
    {α : Type} {good : α → Prop} {lines : List Text} {result : Except Failure α}
    (meets : Meets good (Failure.From origin lines) result)
    (failed : result = .error failure) :
    failure.isRuntime = false := by
  subst failed
  cases failure with
  | abort => rfl
  | fault described =>
    obtain ⟨bare, ⟨_, _, _, notRuntime, _⟩, same⟩ := meets
    have attached := congrArg (fun fault => (Failure.fault fault).isRuntime) same
    exact (Failure.isRuntime_attach lines (.fault described)).symm.trans
      (attached.trans ((Failure.isRuntime_attach lines (.fault bare)).trans notRuntime))

/-- Reading fails for no cause of an evaluation. -/
theorem Program.isRuntime_of_ofSource
    (failed : Program.ofSource file source = .error failure) :
    failure.isRuntime = false :=
  (ofSource_from file source).isRuntime failed

theorem Stmt.isRuntime_of_ofSource
    (failed : Stmt.ofSource file source = .error failure) :
    failure.isRuntime = false :=
  (ofSource_from file source).isRuntime failed

/-- Where parts lie in their nodes, nothing reaches past the root. -/
theorem Node.Throughout.reaches
    {limit : Nat} {node : Node}
    (nested : node.Throughout (Node.Placed origin))
    (stops : node.span.stop.offset ≤ limit) :
    node.Throughout fun inner => inner.Encloses ∧ inner.span.stop.offset ≤ limit := by
  induction nested with
  | intro placed _ hypothesis =>
    refine .intro ⟨placed.encloses, stops⟩ fun part member => hypothesis part member ?_
    exact Nat.le_trans (placed.encloses.bounds (List.mem_map_of_mem member)).2.2 stops

/-- How the span of a node lies in a source and around the nodes below it. -/
structure Node.WellPlaced (source : Text) (node : Node) : Prop where
  /-- The span does not run backwards. -/
  forward : node.span.start.offset ≤ node.span.stop.offset
  /-- The span ends inside the source. -/
  within : node.span.stop.offset ≤ source.length
  /-- The spans of the parts lie inside. -/
  holds : ∀ part ∈ node.parts, node.span.start.offset ≤ part.span.start.offset ∧
    part.span.stop.offset ≤ node.span.stop.offset
  /-- The spans of the parts stand in order and apart. -/
  ordered : node.parts.Pairwise fun first second =>
    first.span.stop.offset ≤ second.span.start.offset

/-- In the program of a source the span of every node runs forward inside the source and holds
the spans of the nodes below it, in order and without overlaps. -/
theorem program_spans_nest
    {file : Option Text}
    {source : Text}
    {program : Program}
    (read : Program.ofSource file source = .ok program) :
    (Node.program program).Throughout (Node.WellPlaced source) := by
  have laid := Program.ofSource_laid file source
  rw [read] at laid
  have nested := laid.nested _ List.mem_cons_self
  refine (nested.reaches laid.inOrder.2.2).mono ?_
  rintro node ⟨encloses, stops⟩
  refine ⟨encloses.le, stops, fun part member => ?_, List.pairwise_map.mp encloses.pairwise⟩
  obtain ⟨starts, -, ends⟩ := encloses.bounds (List.mem_map_of_mem member)
  exact ⟨starts, ends⟩

/-- A source with a block, groups, an index, a key in parentheses and an empty call. -/
def groupedSource : Text :=
  "let f x =\n  [x, (1)][(0)]\n\x7b(2): f()\x7d # two"

theorem program_spans_nest_grouped :
    ∃ program, Program.ofSource none groupedSource = .ok program ∧
      program.statements.length = 2 ∧
      (Node.program program).Throughout (Node.WellPlaced groupedSource) := by
  have passes : (Program.ofSource none groupedSource).toOption.any
      (·.statements.length == 2) = true := by decide +kernel
  obtain ⟨program, read, length⟩ := Program.exists_of_any passes
  exact ⟨program, read, eq_of_beq length, program_spans_nest read⟩

end Offside
