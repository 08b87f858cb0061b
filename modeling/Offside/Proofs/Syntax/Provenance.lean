import Offside.Proofs.Evaluation.Inheritance
import Offside.Proofs.Programs.Concatenation

namespace Offside

/-!
# Where syntax comes from

A tree is made of the tokens that it is read from: each of its nodes starts where a token
starts, and its integers are those of tokens.  So what is known of the places where the
tokens of a source start, and of their integers, holds throughout its trees.  Here it is shown
of the tokens, and that a source is refused at such a place where it has no tokens or layout.
-/

variable {node : Node} {start : Token} {tokens : List Token}

namespace Node

/-- A predicate holds of a node and of all nodes below it. -/
inductive Throughout (holds : Node → Prop) : Node → Prop where
  | intro {node : Node} :
      holds node → (∀ part ∈ node.parts, Throughout holds part) → Throughout holds node

/-- What holds throughout a tree holds throughout its parts. -/
theorem throughout_inherited (holds : Node → Prop) : Inherited (Throughout holds) := by
  rintro _ ⟨_, parts⟩
  exact parts

/-- What holds throughout a tree may be weakened at every node. -/
theorem Throughout.mono
    {holds weaker : Node → Prop}
    (throughout : Throughout holds node)
    (implies : ∀ node, holds node → weaker node) :
    Throughout weaker node := by
  induction throughout with
  | intro here _ hypothesis => exact .intro (implies _ here) hypothesis

end Node

/-- Whether something failed in an evaluation. -/
def Failure.isRuntime : Failure → Bool
  | .fault ⟨.runtime _, _, _⟩ => true
  | _ => false

/-- A source line that is attached does not change where something failed. -/
@[simp] theorem Failure.isRuntime_attach (lines : List Text) (failure : Failure) :
    (failure.attach lines).isRuntime = failure.isRuntime := by
  cases failure with
  | abort => rfl
  | fault fault =>
    obtain ⟨cause, span, line⟩ := fault
    cases line <;> cases span <;> cases cause <;> rfl

/-- What is known of the tokens of a source: the places where they start, and the integers
that they stand for. -/
structure Provenance where
  place : (file : Option Text) → (start : Position) → Prop
  number : Int → Prop

/-- A span starts at a place of the source. -/
def Provenance.Covers (origin : Provenance) (span : Span) : Prop :=
  origin.place span.file span.start

/-- A span that is drawn further starts where it started. -/
theorem Provenance.Covers.through
    {origin : Provenance} {span : Span}
    (covers : origin.Covers span)
    (other : Span) :
    origin.Covers (span.through other) :=
  covers

section

variable (origin : Provenance)

/-- A token starts at a place of the source, and an integer is one of the source. -/
structure Token.From (token : Token) : Prop where
  covers : origin.Covers token.span
  number : ∀ value, token.symbol = .int value → origin.number value

/-- A node starts at a place of the source, and an integer is one of the source. -/
def Node.Springs : Node → Prop
  | .expr (.int span value) => origin.Covers span ∧ origin.number value
  | node => origin.Covers node.span

/-- A tree consists of nodes of the source. -/
abbrev Node.From : Node → Prop :=
  Node.Throughout (Node.Springs origin)

abbrev Stmt.From (root : Stmt) : Prop :=
  Node.From origin (.stmt root)

/-- A fault is at a place of the source, its line is not known yet, and it has no cause of an
evaluation. -/
def Fault.From (fault : Fault) : Prop :=
  ∃ cause span, fault = .located cause span ∧ (Failure.fault fault).isRuntime = false ∧
    origin.Covers span

/-- A cursor stands among tokens of the source. -/
structure Cursor.From (cursor : Cursor) : Prop where
  before : ∀ token ∈ cursor.before, token.From origin
  current : cursor.current.From origin
  after : ∀ token ∈ cursor.after, token.From origin

end

variable {origin : Provenance}

/-- What is known of a source may be forgotten in part. -/
theorem Node.From.mono
    {other : Provenance}
    (fromSource : node.From origin)
    (places : ∀ file start, origin.place file start → other.place file start)
    (numbers : ∀ value, origin.number value → other.number value) :
    node.From other := by
  refine Throughout.mono fromSource fun node springs => ?_
  unfold Springs at springs ⊢
  split at springs
  · exact ⟨places _ _ springs.1, numbers _ springs.2⟩
  · exact places _ _ springs

/-- A node of a source starts where one of its tokens starts. -/
theorem Node.Springs.covers (springs : node.Springs origin) : origin.Covers node.span := by
  unfold Springs at springs
  split at springs
  · exact springs.1
  · exact springs

/-- A node starts at a place of the source that its tree comes from. -/
theorem Node.From.covers (fromSource : node.From origin) : origin.Covers node.span := by
  obtain ⟨springs, _⟩ := fromSource
  exact springs.covers

namespace Cursor.From

variable {cursor : Cursor} (among : cursor.From origin)

include among

/-- A cursor moves on among tokens of the source. -/
theorem next : cursor.next.From origin := by
  unfold Cursor.next
  split
  · exact among
  split
  · exact among
  · next token rest shape =>
      have inside := among.after
      rw [shape, List.forall_mem_cons] at inside
      refine ⟨?_, inside.1, inside.2⟩
      rintro _ ⟨⟩
      exact among.current

end Cursor.From

/-- A result is good, or its failure is one of those that are expected. -/
def Meets {ε α : Type} (good : α → Prop) (expected : ε → Prop) : Except ε α → Prop
  | .ok value => good value
  | .error reason => expected reason

namespace Meets

variable {ε α β : Type} {good middle : α → Prop} {expected : ε → Prop} {result : Except ε α}

/-- What is known of a result may be weakened. -/
theorem mono (meets : Meets middle expected result) (implies : ∀ value, middle value → good value) :
    Meets good expected result := by
  cases result with
  | ok value => exact implies value meets
  | error reason => exact meets

/-- What is known of two computations, one behind the other, is known of both together. -/
theorem bind
    {next : α → Except ε β} {final : β → Prop}
    (first : Meets middle expected result)
    (second : ∀ value, middle value → Meets final expected (next value)) :
    Meets final expected (result >>= next) := by
  cases result with
  | ok value => exact second value first
  | error reason => exact first

end Meets

theorem forall_mem_concat
    {α : Type} {holds : α → Prop} {items : List α} {item : α}
    (each : ∀ other ∈ items, holds other)
    (last : holds item) :
    ∀ other ∈ items ++ [item], holds other :=
  List.forall_mem_append.mpr ⟨each, List.forall_mem_singleton.mpr last⟩

/-! ## Sources -/

/-- The places of a source, under its name, and the integers that a program can have. -/
def Provenance.ofSource (file : Option Text) (source : Text) : Provenance where
  place name start :=
    name = file ∧
      ∃ passed rest, source = passed ++ rest ∧ start = Position.origin.advanceBy passed
  number := Scan.InRange

/-- A mark holds no integer, so only its place matters. -/
theorem Token.From.of_mark
    {token : Token} {mark : Mark}
    (isMark : token.symbol = .mark mark)
    (covers : origin.Covers token.span) :
    token.From origin := by
  refine ⟨covers, fun value isInt => ?_⟩
  rw [isMark] at isInt
  cases isInt

open TokenStream (Reader Passage endTokens exists_stop_of_failure)

variable {file : Option Text} {source : Text}

/-- A passage through a source reads tokens of the source. -/
theorem TokenStream.Passage.tokens_from
    {reader last : Reader} {text rest passed : Text}
    {indents : List (Nat × Nat)}
    (passage : Passage file reader text tokens indents last rest)
    (starts : reader.position = Position.origin.advanceBy passed)
    (whole : source = passed ++ text) :
    ∀ token ∈ tokens, token.From (.ofSource file source) := by
  have moved (piece : Text) {start : Position} {passed : Text}
      (atStart : start = Position.origin.advanceBy passed) :
      start.advanceBy piece = Position.origin.advanceBy (passed ++ piece) := by
    rw [atStart, Position.advanceBy_append]
  induction passage generalizing passed with
  | done => exact List.forall_mem_nil _
  | lineEnd _ hypothesis =>
    refine List.forall_mem_cons.mpr ⟨.of_mark rfl ⟨rfl, passed, _, whole, starts⟩, ?_⟩
    exact hypothesis (moved [.scalar '\n'] starts) (by simpa using whole)
  | emptyLine _ hypothesis =>
    exact hypothesis (moved [.scalar '\n'] starts) (by simpa using whole)
  | @blank _ _ _ code _ _ _ _ _ _ _ hypothesis =>
    exact hypothesis (moved [code] starts) (by simpa using whole)
  | @comment _ _ _ body _ _ _ _ _ _ _ _ hypothesis =>
    exact hypothesis (moved (.scalar '#' :: body) starts) (by simpa using whole)
  | @token _ _ _ first tail _ _ _ _ _ _ scanned _ hypothesis =>
    refine List.forall_mem_cons.mpr ⟨⟨⟨rfl, passed, _, whole, starts⟩, ?_⟩, ?_⟩
    · rintro value ⟨⟩
      exact scan_int scanned
    · exact hypothesis (moved (first :: tail) starts) (by simpa using whole)

/-- The tokens that end a source stand at its end. -/
theorem TokenStream.endTokens_from
    {last : Reader}
    (ends : last.position = Position.origin.advanceBy source) :
    ∀ token ∈ endTokens file last, token.From (.ofSource file source) := by
  have covers : (Provenance.ofSource file source).Covers ⟨file, last.position, last.position⟩ :=
    ⟨rfl, source, [], (List.append_nil source).symm, ends⟩
  unfold endTokens
  split
  · exact List.forall_mem_cons.mpr
      ⟨.of_mark rfl covers, List.forall_mem_singleton.mpr (.of_mark rfl covers)⟩
  · exact List.forall_mem_singleton.mpr (.of_mark rfl covers)

/-- The marks of the layout stand where the token stands before which they are put. -/
theorem Layout.marksAt_from {token : Token} (fromSource : token.From origin) (marks : List Mark) :
    ∀ other ∈ marksAt token marks, other.From origin :=
  List.forall_mem_map.mpr fun _ _ => .of_mark rfl fromSource.covers

/-- The layout adds marks where tokens start, and refuses a source where a token starts. -/
theorem Layout.resolveFrom_from
    (indents : Indents)
    (state : State)
    (each : ∀ token ∈ tokens, token.From origin) :
    Meets (fun out => ∀ token ∈ out, token.From origin) (Fault.From origin)
      (resolveFrom indents state tokens) := by
  induction tokens generalizing state with
  | nil => exact List.forall_mem_nil _
  | cons token rest hypothesis =>
    obtain ⟨tokenFrom, restFrom⟩ := List.forall_mem_cons.mp each
    rw [resolveFrom]
    split
    · exact hypothesis _ restFrom
    split
    · exact forall_mem_concat (marksAt_from tokenFrom _) tokenFrom
    cases arrives : arrive indents state token with
    | none => exact ⟨_, _, rfl, rfl, tokenFrom.covers⟩
    | some pair =>
      have later := hypothesis
        ⟨some (passBracket pair.2 token).2, some token.symbol, false⟩ restFrom
      simp only
      split
      · next fault failed =>
          rw [failed] at later
          exact later
      · next out laidOut =>
          rw [laidOut] at later
          refine List.forall_mem_append.mpr ⟨List.forall_mem_append.mpr ⟨?_, ?_⟩, ?_⟩
          · exact marksAt_from tokenFrom _
          · exact marksAt_from tokenFrom _
          · exact List.forall_mem_cons.mpr ⟨tokenFrom, later⟩

/-- A failure is an abort, or a fault at a place of the source that may have its line. -/
def Failure.From (origin : Provenance) (lines : List Text) : Failure → Prop
  | .fault described =>
    ∃ bare, Fault.From origin bare ∧ described.attach lines = bare.attach lines
  | .abort _ => True

/-- Lines of one source are attached only once. -/
theorem Fault.attach_attach (lines : List Text) (fault : Fault) :
    (fault.attach lines).attach lines = fault.attach lines := by
  obtain ⟨cause, span, line⟩ := fault
  cases line with
  | some line => rfl
  | none =>
    cases span with
    | none => rfl
    | some span =>
      show Fault.attach lines ⟨cause, some span, span.lineAmong? lines⟩ = _
      cases found : span.lineAmong? lines with
      | none => rfl
      | some line => simp [Fault.attach, found]

/-- A source is refused at a place of the source. -/
theorem TokenStream.failure_from
    {failure : Failure}
    (failed : (tokenize file source).failure = some failure) :
    failure.From (.ofSource file source) source.lines := by
  obtain ⟨unlined, refused, rfl⟩ := Option.map_eq_some_iff.mp failed
  cases unlined with
  | abort abort => exact trivial
  | fault fault =>
    refine ⟨fault, ?_, Fault.attach_attach _ fault⟩
    obtain ⟨tokens, indents, last, code, rest, passage, atStop⟩ := exists_stop_of_failure refused
    obtain ⟨passed, shape, position⟩ := passage.consumed
    unfold Reader.failureAt at atStop
    split at atStop
    · cases atStop
    · next misread _ =>
        cases atStop
        refine ⟨_, _, rfl, rfl, rfl, passed ++ (code :: rest).take misread.first,
          (code :: rest).drop misread.first, ?_, ?_⟩
        · rw [shape, List.append_assoc, List.take_append_drop]
        · rw [Position.advanceBy_append, ← position]
    · cases atStop

/-- A laid out source has tokens of the source, or is refused at a place of the source. -/
theorem layoutTokens_from (file : Option Text) (source : Text) :
    Meets (fun tokens => ∀ token ∈ tokens, token.From (.ofSource file source))
      (Failure.From (.ofSource file source) source.lines) (layoutTokens file source) := by
  cases failed : (tokenize file source).failure with
  | some failure =>
    simp only [layoutTokens, failed]
    exact TokenStream.failure_from failed
  | none =>
    obtain ⟨tokens, indents, last, passage⟩ := exists_passage_of_tokenize failed
    obtain ⟨passed, shape, position⟩ := passage.consumed
    rw [List.append_nil] at shape
    have each : ∀ token ∈ tokens ++ endTokens file last, token.From (.ofSource file source) :=
      List.forall_mem_append.mpr
        ⟨passage.tokens_from rfl (List.nil_append source).symm,
          TokenStream.endTokens_from (shape ▸ position)⟩
    have resolved := Layout.resolveFrom_from [] .initial each
    rw [layoutTokens_eq_of_passage passage]
    unfold Layout.resolve
    cases result : Layout.resolveFrom [] .initial (tokens ++ endTokens file last) with
    | ok out =>
      rw [result] at resolved
      exact resolved
    | error fault =>
      rw [result] at resolved
      exact ⟨fault, resolved, rfl⟩

/-- What is read from a source is good, or the source is refused at one of its places. -/
theorem read_from
    {α : Type} {good : α → Prop} {read : List Token → Except Fault α}
    (reads : ∀ tokens, layoutTokens file source = .ok tokens →
      (∀ token ∈ tokens, token.From (.ofSource file source)) →
      Meets good (Fault.From (.ofSource file source)) (read tokens)) :
    Meets good (Failure.From (.ofSource file source) source.lines) (do
      let tokens ← layoutTokens file source
      Failure.lift (read tokens)) := by
  have laidOut := layoutTokens_from file source
  cases result : layoutTokens file source with
  | error failure =>
    rw [result] at laidOut
    exact laidOut
  | ok tokens =>
    rw [result] at laidOut
    have drawn := reads tokens result laidOut
    show Meets _ _ (Failure.lift (read tokens))
    cases final : read tokens with
    | ok value =>
      rw [final] at drawn
      exact drawn
    | error fault =>
      rw [final] at drawn
      exact ⟨fault, drawn, rfl⟩

end Offside
