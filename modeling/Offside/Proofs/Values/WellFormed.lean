import Offside.Proofs.Failures.Unreachable
import Offside.Proofs.Numbers.Exactness
import Offside.Proofs.Values.Lasting

namespace Offside

/-!
# Values are well-formed

Integers have 64 bits, a character is one code point, and the parameters of a function are
distinct.  Integers come from literals, from arithmetic and from `len`, and then spread through
bindings and shared collections; a value that is out of range anywhere would spread with them.
So the invariant is one of everything that a store holds, and of the values that an evaluation
has at hand.
-/

/-- An integer is in range, and a character has exactly one code point. -/
def Value.WellFormed (value : Value) : Prop :=
  match value with
  | .int number => Scan.InRange number
  | .char _ => ∃ code, Operator.asText? value = some [code]
  | _ => True

/-- All values in a store are well-formed, and its functions have distinct parameters. -/
structure Store.WellFormed (store : Store) : Prop where
  holds : store.Holds Value.WellFormed
  distinct : ∀ (index : Nat) (closure : Closure),
    store.closures[index]? = some closure → closure.parameters.Nodup

/-! ## Arithmetic -/

namespace Integer

/-- Whatever an operator on integers gives has passed the check. -/
theorem inRange_of_apply
    {operator : TokenKind} {left right value : Int}
    (applied : apply operator left right = .ok value) :
    Scan.InRange value := by
  unfold apply at applied
  split at applied
  · exact inRange_of_checked applied
  · exact inRange_of_checked applied
  · exact inRange_of_checked applied
  · split at applied
    · cases applied
    · exact inRange_of_checked applied
  · split at applied
    · cases applied
    · exact inRange_of_checked applied
  · unfold power at applied
    split at applied
    · cases applied
    · rw [powerFrom_one (Nat.lt_succ_self _)] at applied
      exact inRange_of_checked applied
  · cases applied

end Integer

/-- Well-formed values are made from well-formed ones, whatever the store is. -/
theorem wellFormed_lasting : Lasting fun _ value => value.WellFormed where
  grows wellFormed _ := wellFormed
  plain _ value isPlain := by
    cases value with
    | int | collection => cases isPlain
    | char => exact ⟨_, rfl⟩
    | _ => exact trivial
  array _ _ := trivial
  integer _ _ _ _ _ := Integer.inRange_of_apply

namespace Evaluation

/-- An integer literal is in range, and so is a length that `len` gives. -/
def Call.Measured : Call → Prop
  | ⟨_, _, .expr (.int _ number), _⟩ => Scan.InRange number
  | ⟨_, _, .apply _ _ (.builtin .len) [value], machine⟩ =>
    ∀ size, Builtin.length machine.store value = .ok size → Scan.InRange size
  | _ => True

/-- Where integer literals and lengths are in range, well-formed values are made. -/
theorem Call.Measured.makes {limit : Nat} {call : Call} (measured : call.Measured) :
    call.Makes (fun _ value => value.WellFormed) limit := by
  unfold Call.Measured at measured
  unfold Call.Makes
  split
  · exact measured
  · exact fun _ _ _ => trivial
  · exact fun _ _ _ => trivial
  · exact measured
  · trivial

end Evaluation

/-! ## Sessions -/

/-- Integers that a program can have, anywhere. -/
def Provenance.anywhere : Provenance :=
  ⟨fun _ _ => True, Scan.InRange⟩

namespace Session

/-- A move executes what is read from a source. -/
def Move.FromSource : Move → Prop
  | .step _ => True
  | .execute _ program => ∃ file source, Program.ofSource file source = .ok program

/-- No string and no collection whose length is asked for in the moves has 2 ^ 63 elements. -/
def Sized (machine : Machine) (moves : List Move) : Prop :=
  ∀ limit site span name value before size,
    Occurs machine moves limit ⟨_, site, .apply span name (.builtin .len) [value], before⟩ →
    Builtin.length before.store value = .ok size →
    size < 9223372036854775808

theorem Move.FromSource.regular {move : Move} (fromSource : move.FromSource) :
    move.Carries Node.Regular := by
  intro statements reads
  refine Stmt.regularAll_iff.mp ?_
  cases move with
  | step asked => exact (Step.regular_of_read reads).1
  | execute settings program =>
    cases reads
    obtain ⟨file, source, read⟩ := fromSource
    exact Program.regular_of_ofSource read

theorem Move.FromSource.literals {move : Move} (fromSource : move.FromSource) :
    move.Carries (Node.From .anywhere) := by
  have anywhere {file : Option Text} {source : Text} {stmt : Stmt}
      (drawn : stmt.From (.ofSource file source)) : stmt.From .anywhere :=
    Node.From.mono drawn (fun _ _ _ => trivial) fun _ inRange => inRange
  intro statements reads stmt member
  cases move with
  | step asked =>
    have drawn := asked.read_from
    rw [show asked.read = .ok statements from reads] at drawn
    exact anywhere (drawn stmt member)
  | execute settings program =>
    cases reads
    obtain ⟨file, source, read⟩ := fromSource
    have drawn := Program.ofSource_from file source
    rw [read] at drawn
    exact anywhere (drawn stmt member)

/-- Integer literals and lengths are in range wherever they are evaluated. -/
theorem Occurs.measured
    {moves : List Move} {limit : Nat} {call : Evaluation.Call}
    (occurs : Occurs start moves limit call)
    (fromSource : ∀ move ∈ moves, move.FromSource)
    (sized : Sized start moves) :
    call.Measured := by
  unfold Evaluation.Call.Measured
  split
  · obtain ⟨⟨_, inRange⟩, _⟩ := (occurs.carries (Node.throughout_inherited _)
      (fun move member => (fromSource move member).literals) start_carries).task
    exact inRange
  · intro size isSize
    have bound := sized _ _ _ _ _ _ size occurs isSize
    unfold Scan.InRange Scan.leastInteger Scan.greatestInteger
    omega
  · trivial

end Session

/-- Values are well-formed.  In every store that a session reaches by moves which execute what
is read from sources, successfully or not, the integers in all frames and collections have 64
bits, characters have one code point, and functions have distinct parameters; the result of a
move is well-formed, too.  Of sizes it is only assumed that no string and no collection whose
length is asked for reaches 2 ^ 63 elements. -/
theorem values_are_well_formed
    (moves : List Session.Move)
    (move : Session.Move)
    (fromSource : ∀ other ∈ moves ++ [move], other.FromSource)
    (sized : Session.Sized Session.start (moves ++ [move])) :
    let reached := Session.play moves Session.start
    reached.store.WellFormed ∧ (move.perform reached).2.store.WellFormed ∧
      ∀ value, (move.perform reached).1 = .ok (some value) → value.WellFormed := by
  intro reached
  have measured (limit : Nat) (call : Evaluation.Call)
      (occurs : Session.Occurs Session.start (moves ++ [move]) limit call) : call.Measured :=
    occurs.measured fromSource sized
  have regular : ∀ other ∈ moves ++ [move], other.Carries Node.Regular :=
    fun other member => (fromSource other member).regular
  have distinct {store : Store} (carries : store.Carries Node.Regular) (index : Nat)
      (closure : Closure) (found : store.closures[index]? = some closure) :
      closure.parameters.Nodup := by
    obtain ⟨_, nodup, _⟩ := carries index closure found
    exact nodup
  obtain ⟨earlier, last⟩ := List.forall_mem_append.mp regular
  have reachedHolds : reached.store.Holds Value.WellFormed :=
    Session.play_upholds wellFormed_lasting
      (fun limit call occurs => (measured limit call (occurs.append [move])).makes)
      (Session.start_upholds wellFormed_lasting)
  have reachedCarries : reached.store.Carries Node.Regular :=
    Session.play_carries Node.regular_inherited earlier Session.start_carries
  obtain ⟨afterHolds, result⟩ := move.upholds wellFormed_lasting
    (fun limit call occurs => (measured limit call occurs.behind).makes) reachedHolds
  have afterCarries : (move.perform reached).2.store.Carries Node.Regular :=
    (List.forall_mem_singleton.mp last).perform Node.regular_inherited reachedCarries
  exact ⟨⟨reachedHolds, distinct reachedCarries⟩, ⟨afterHolds, distinct afterCarries⟩, result⟩

/-- Whether a node is a call. -/
def Node.isCall : Node → Bool
  | .expr (.call _ _ _) => true
  | _ => false

/-- Without calls no length is asked for. -/
theorem Session.sized_of_no_calls
    {moves : List Session.Move}
    (reads : ∀ move ∈ moves, move.Carries (Node.Throughout (·.isCall = false))) :
    Session.Sized Session.start moves := by
  intro limit site span name value before size occurs _
  obtain ⟨_, _, _, outer⟩ := occurs.call_of_apply
  obtain ⟨noCall, _⟩ := (outer.carries (Node.throughout_inherited _) reads start_carries).task
  cases noCall

/-- A session that binds the greatest integer and then computes with it. -/
def Session.greatest : Session.Move × Session.Move :=
  (.step ⟨.default, "let big = 9223372036854775807", false⟩, .step ⟨.default, "big - 1", true⟩)

/-- Whether a statement binds an integer, or applies an operator to a name and an integer. -/
def Stmt.plain : Stmt → Bool
  | .binding _ _ _ (.int _ _) => true
  | .expression _ (.binary _ (.identifier _ _) _ (.int _ _)) => true
  | _ => false

theorem Stmt.plain_no_calls {stmt : Stmt} (plain : stmt.plain = true) :
    Node.Throughout (·.isCall = false) (.stmt stmt) := by
  unfold Stmt.plain at plain
  have leaf {node : Node} (isLeaf : node.parts = []) (noCall : node.isCall = false) :
      Node.Throughout (·.isCall = false) node :=
    ⟨noCall, isLeaf ▸ List.forall_mem_nil _⟩
  split at plain
  · exact ⟨rfl, List.forall_mem_singleton.mpr (leaf rfl rfl)⟩
  · refine ⟨rfl, List.forall_mem_singleton.mpr ⟨rfl, ?_⟩⟩
    exact List.forall_mem_cons.mpr ⟨leaf rfl rfl, List.forall_mem_singleton.mpr (leaf rfl rfl)⟩
  · cases plain

theorem values_are_well_formed_greatest :
    (Session.greatest.2.perform (Session.play [Session.greatest.1] Session.start)).1 =
        .ok (some (.int 9223372036854775806)) ∧
      (Session.play [Session.greatest.1] Session.start).store.WellFormed ∧
      (Session.greatest.2.perform
        (Session.play [Session.greatest.1] Session.start)).2.store.WellFormed ∧
      (Value.int 9223372036854775806).WellFormed := by
  have carries (move : Session.Move)
      (plain : (move.read.toOption.getD []).all Stmt.plain = true) :
      move.Carries (Node.Throughout (·.isCall = false)) := by
    intro statements reads stmt member
    rw [reads] at plain
    exact Stmt.plain_no_calls (List.all_eq_true.mp plain stmt member)
  have sized : Session.Sized Session.start ([Session.greatest.1] ++ [Session.greatest.2]) :=
    Session.sized_of_no_calls (List.forall_mem_cons.mpr
      ⟨carries _ (by decide +kernel),
        List.forall_mem_singleton.mpr (carries _ (by decide +kernel))⟩)
  have result : (Session.greatest.2.perform (Session.play [Session.greatest.1] Session.start)).1 =
      .ok (some (.int 9223372036854775806)) := by decide +kernel
  obtain ⟨before, after, results⟩ := values_are_well_formed [Session.greatest.1] Session.greatest.2
    (List.forall_mem_cons.mpr ⟨trivial, List.forall_mem_singleton.mpr trivial⟩) sized
  exact ⟨result, before, after, results _ result⟩

end Offside
