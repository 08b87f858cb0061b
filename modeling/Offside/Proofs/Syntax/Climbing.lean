import Offside.Proofs.Syntax.Acceptance

namespace Offside

/-!
# Operators group by precedence

A chain is a row of applications with binary operators between them.  Of the trees whose
leaves and nodes, read from left to right, are the chain, the reader of operands builds one
in which every operator takes what binds tighter: on its left also what binds as tight as it
does, and `^` instead on its right.

The argument follows precedence climbing.  Its invariant is about the tree that is already
built: the operator at its root leaves none behind it that its right operand could have taken.
-/

namespace Grammar

/-- A binary operator and its precedence. -/
structure BinaryOperator where
  mark : Mark
  precedence : Nat
  isOperator : (TokenKind.mark mark).precedence? = some precedence

namespace BinaryOperator

/-- An operator may stand at the root of the left operand of another one. -/
def TakesLeft (outer inner : BinaryOperator) : Prop :=
  if outer.mark = .caret then outer.precedence < inner.precedence
  else outer.precedence ≤ inner.precedence

/-- An operator may stand at the root of the right operand of another one. -/
def TakesRight (outer inner : BinaryOperator) : Prop :=
  if outer.mark = .caret then outer.precedence ≤ inner.precedence
  else outer.precedence < inner.precedence

/-- The right operand of an operator holds operators of at least this precedence. -/
def rightLevel (operator : BinaryOperator) : Nat :=
  operandLevel (.mark operator.mark) operator.precedence

variable {outer inner operator : BinaryOperator}

/-- Of all operators `^` has the highest precedence. -/
theorem precedence_of_caret (isCaret : operator.mark = .caret) : operator.precedence = 5 := by
  have isOperator := operator.isOperator
  rw [isCaret] at isOperator
  exact (Option.some.inj isOperator).symm

theorem precedence_lt_of_ne_caret (noCaret : operator.mark ≠ .caret) : operator.precedence < 5 := by
  obtain ⟨mark, precedence, isOperator⟩ := operator
  cases mark <;> first | exact absurd rfl noCaret | cases isOperator <;> decide

/-- The right operand of `^` may hold another one, and that of any other operator only tighter
ones. -/
theorem rightLevel_of_caret (isCaret : operator.mark = .caret) :
    operator.rightLevel = operator.precedence := by
  rw [rightLevel, operandLevel, isCaret]
  rfl

theorem rightLevel_of_ne_caret (noCaret : operator.mark ≠ .caret) :
    operator.rightLevel = operator.precedence + 1 := by
  have groupsLeft : (TokenKind.mark operator.mark).groupsRight = false := by
    cases shape : operator.mark <;> first | exact absurd shape noCaret | rfl
  rw [rightLevel, operandLevel, groupsLeft]
  rfl

/-- What a right operand holds may stand at its root. -/
theorem takesRight_of_rightLevel_le (above : outer.rightLevel ≤ inner.precedence) :
    outer.TakesRight inner := by
  unfold TakesRight
  split
  · next isCaret => rwa [rightLevel_of_caret isCaret] at above
  · next noCaret => rwa [rightLevel_of_ne_caret noCaret] at above

/-- An operator that the right operand of another one leaves behind takes that one on its
left. -/
theorem takesLeft_of_lt_rightLevel (below : outer.precedence < inner.rightLevel) :
    outer.TakesLeft inner := by
  by_cases innerCaret : inner.mark = .caret
  · rw [rightLevel_of_caret innerCaret] at below
    unfold TakesLeft
    split <;> omega
  · rw [rightLevel_of_ne_caret innerCaret] at below
    have loose := precedence_lt_of_ne_caret innerCaret
    unfold TakesLeft
    split
    · next outerCaret =>
        have tight := precedence_of_caret outerCaret
        omega
    · omega

end BinaryOperator

/-- An application with its tree, wherever there is room for so many levels of nesting. -/
structure ChainOperand where
  word : Word
  expr : Expr
  levels : Nat
  applies : ∀ room, levels ≤ room → Application (Within room) word expr

/-- Operators, each with the operand behind it. -/
abbrev Links :=
  List (BinaryOperator × ChainOperand)

/-- The word of operators and the operands behind them. -/
def Links.word (links : Links) : Word :=
  chainWord (links.map fun (operator, operand) => (operator.mark, operand.word))

@[simp] theorem Links.word_cons (operator : BinaryOperator) (operand : ChainOperand)
    (links : Links) :
    Links.word ((operator, operand) :: links) =
      .mark operator.mark :: (operand.word ++ links.word) := rfl

/-- The words of links stand behind each other. -/
@[simp] theorem Links.word_append (links others : Links) :
    Links.word (links ++ others) = links.word ++ others.word := by
  simp [Links.word, chainWord]

/-- Links bind looser than a level if their first operator does. -/
theorem bindsLooser_word_cons_iff
    {level : Nat} {operator : BinaryOperator} {operand : ChainOperand}
    {links : Links} :
    BindsLooser level (Links.word ((operator, operand) :: links)) ↔
      operator.precedence < level := by
  constructor
  · intro looser
    exact looser _ rfl _ operator.isOperator
  · rintro below _ ⟨⟩ precedence found
    obtain rfl := Option.some.inj (operator.isOperator.symm.trans found)
    exact below

/-- Operands with operators between them. -/
structure OperatorChain where
  first : ChainOperand
  links : Links

def OperatorChain.word (chain : OperatorChain) : Word :=
  chain.first.word ++ chain.links.word

/-- A tree over the operands and the operators of a chain. -/
inductive OperatorTree where
  | leaf (operand : ChainOperand)
  | node (left : OperatorTree) (operator : BinaryOperator) (right : OperatorTree)

namespace OperatorTree

/-- The expression that a tree stands for. -/
def expr : OperatorTree → Expr
  | .leaf operand => operand.expr
  | .node left operator right => .binary .nowhere left.expr (.mark operator.mark) right.expr

/-- The operands and operators of a tree, read in order. -/
def chain : OperatorTree → OperatorChain
  | .leaf operand => ⟨operand, []⟩
  | .node left operator right =>
    ⟨left.chain.first, left.chain.links ++ (operator, right.chain.first) :: right.chain.links⟩

/-- How many levels of nesting a tree needs: those of its operands, and one more for each
right operand. -/
def levels : OperatorTree → Nat
  | .leaf operand => operand.levels
  | .node left _ right => max left.levels (right.levels + 1)

/-- The operator at the root. -/
def operator? : OperatorTree → Option BinaryOperator
  | .leaf _ => none
  | .node _ operator _ => some operator

/-- At every node, the operators at the roots of the two operands bind tight enough. -/
def Grouped : OperatorTree → Prop
  | .leaf _ => True
  | .node left operator right =>
    left.Grouped ∧ right.Grouped ∧
      (∀ inner ∈ left.operator?, operator.TakesLeft inner) ∧
      ∀ inner ∈ right.operator?, operator.TakesRight inner

/-- The operator at the root binds at least as tight as a level. -/
def AtLeast (level : Nat) (tree : OperatorTree) : Prop :=
  ∀ operator ∈ tree.operator?, level ≤ operator.precedence

/-- The operator at the root has its whole right operand: what follows does not belong to it. -/
def Closed (tree : OperatorTree) (rest : Word) : Prop :=
  ∀ operator ∈ tree.operator?, BindsLooser operator.rightLevel rest

end OperatorTree

open OperatorTree

/-- What precedence climbing makes of a tree and the links behind it: it takes some of them
into a larger tree and leaves the rest, which starts with no operator of its level. -/
structure Climbed (least : Nat) (left : OperatorTree) (taken rest : Links) (tree : OperatorTree) :
    Prop where
  chain : tree.chain = ⟨left.chain.first, left.chain.links ++ taken⟩
  grouped : tree.Grouped
  atLeast : tree.AtLeast least
  levels : left.levels ≤ tree.levels
  operators : ∀ room, tree.levels ≤ room →
    Operators (Within room) least left.expr taken.word tree.expr
  looser : BindsLooser least rest.word

namespace Climbed

variable {least : Nat} {left right tree : OperatorTree} {operator : BinaryOperator}
  {operand : ChainOperand} {inside taken rest : Links}

/-- Climbing ends where the next operator binds looser. -/
theorem nothing
    (grouped : left.Grouped)
    (atLeast : left.AtLeast least)
    (looser : BindsLooser least rest.word) :
    Climbed least left [] rest left where
  chain := by simp
  grouped := grouped
  atLeast := atLeast
  levels := Nat.le_refl _
  operators _ _ := .done
  looser := looser

/-- The right operand of an operator needs one level more than its tree. -/
theorem within
    (climbed : Climbed least (.leaf operand) inside rest right)
    {room : Nat}
    (enough : right.levels < room) :
    Within room (.operand least) (operand.word ++ inside.word) right.expr := by
  cases room with
  | zero => exact (Nat.not_lt_zero _ enough).elim
  | succ room =>
    have inner : right.levels ≤ room := Nat.le_of_lt_succ enough
    exact .operand (.intro (operand.applies room (Nat.le_trans climbed.levels inner))
      (climbed.operators room inner))

/-- One round: an operator takes what was climbed at its level as its right operand, and
climbing goes on behind the node. -/
theorem more
    (above : least ≤ operator.precedence)
    (operandClimbed : Climbed operator.rightLevel (.leaf operand) inside (taken ++ rest) right)
    (climbed : Climbed least (.node left operator right) taken rest tree) :
    Climbed least left ((operator, operand) :: (inside ++ taken)) rest tree := by
  obtain ⟨leftLevels, rightLevels⟩ := Nat.max_le.mp climbed.levels
  refine ⟨?_, climbed.grouped, climbed.atLeast, leftLevels, ?_, climbed.looser⟩
  · rw [climbed.chain, OperatorTree.chain, operandClimbed.chain]
    simp [OperatorTree.chain]
  · intro room enough
    have looser := operandClimbed.looser
    rw [Links.word_append] at looser
    rw [Links.word_cons, Links.word_append, ← List.append_assoc]
    exact .more operator.isOperator above (operandClimbed.within (Nat.le_trans rightLevels enough))
      looser.of_append (climbed.operators room enough)

end Climbed

/-- An operator may be put on a tree that has its whole right operand, with a right operand
that was climbed at its level. -/
theorem OperatorTree.Grouped.node
    {left right : OperatorTree} {operator : BinaryOperator} {operand : ChainOperand}
    {links inside rest : Links}
    (grouped : left.Grouped)
    (closed : left.Closed (Links.word ((operator, operand) :: links)))
    (climbed : Climbed operator.rightLevel (.leaf operand) inside rest right) :
    (node left operator right).Grouped := by
  refine ⟨grouped, climbed.grouped, fun inner isRoot => ?_, fun inner isRoot => ?_⟩
  · have below := bindsLooser_word_cons_iff.mp (closed inner isRoot)
    exact BinaryOperator.takesLeft_of_lt_rightLevel below
  · exact BinaryOperator.takesRight_of_rightLevel_le (climbed.atLeast inner isRoot)

/-- Precedence climbing behind a tree that has its whole right operand.  The right operand of
the next operator is climbed at that operator's level, and the rest of the chain, which is
shorter, behind the node of the two. -/
theorem exists_climbed
    (least : Nat)
    (left : OperatorTree)
    (links : Links)
    (grouped : left.Grouped)
    (atLeast : left.AtLeast least)
    (closed : left.Closed links.word) :
    ∃ taken rest tree, links = taken ++ rest ∧ Climbed least left taken rest tree := by
  match links with
  | [] => exact ⟨[], [], left, rfl, .nothing grouped atLeast nofun⟩
  | (operator, operand) :: links =>
    by_cases above : least ≤ operator.precedence
    · obtain ⟨inside, outside, right, rfl, operandClimbed⟩ :=
        exists_climbed operator.rightLevel (.leaf operand) links trivial nofun nofun
      have nodeAtLeast : (node left operator right).AtLeast least := by
        rintro _ ⟨⟩
        exact above
      have nodeClosed : (node left operator right).Closed (Links.word outside) := by
        rintro _ ⟨⟩
        exact operandClimbed.looser
      obtain ⟨taken, rest, tree, rfl, climbed⟩ :=
        exists_climbed least (.node left operator right) outside
          (grouped.node closed operandClimbed) nodeAtLeast nodeClosed
      exact ⟨(operator, operand) :: (inside ++ taken), rest, tree, by simp,
        .more above operandClimbed climbed⟩
    · refine ⟨[], (operator, operand) :: links, left, rfl, .nothing grouped atLeast ?_⟩
      exact bindsLooser_word_cons_iff.mpr (Nat.lt_of_not_le above)
termination_by links.length

/-- Every chain has a tree that groups by precedence and that the grammar gives it. -/
theorem OperatorChain.exists_grouped (chain : OperatorChain) :
    ∃ tree : OperatorTree, tree.chain = chain ∧ tree.Grouped ∧
      ∀ room, tree.levels < room → Within room (.operand 0) chain.word tree.expr := by
  obtain ⟨taken, rest, tree, split, climbed⟩ :=
    exists_climbed 0 (.leaf chain.first) chain.links trivial nofun nofun
  -- Every operator has at least precedence 0, so climbing leaves none of the chain.
  have restNil : rest = [] := by
    cases rest with
    | nil => rfl
    | cons link rest =>
      exact absurd (bindsLooser_word_cons_iff.mp climbed.looser) (Nat.not_lt_zero _)
  subst restNil
  rw [List.append_nil] at split
  subst split
  exact ⟨tree, climbed.chain, climbed.grouped, fun _ => climbed.within⟩

end Grammar

open Grammar Reading

/-- A reading fails for nesting too deeply. -/
def Reading.FailsTooDeep {α : Type} (result : Except Fault α) : Prop :=
  ∃ fault, result = .error fault ∧ TooDeep fault

/-- Where the grammar has an operand, the reader passes it and gives its tree, unless the
operand needs more room than there is; then the reader fails for nesting too deeply. -/
theorem Reading.operand_read_or_tooDeep
    {levels steps room least : Nat} {word rest : Word} {expr : Expr} {cursor : Cursor}
    (derived : Within levels (.operand least) word expr)
    (shape : cursor.terminals = word ++ rest)
    (place : Place steps (word ++ rest))
    (stops : Delimits least rest) :
    (∃ value next, phrase steps room (.operand least) cursor = .ok (value, next) ∧
        next.terminals = rest ∧ value.bare = expr) ∨
      (room < levels ∧ FailsTooDeep (phrase steps room (.operand least) cursor)) := by
  have gives := (phrase_complete steps room levels).gives derived stops place cursor shape
  cases result : phrase steps room (.operand least) cursor with
  | ok pair =>
    rw [result] at gives
    exact .inl ⟨pair.1, pair.2, rfl, gives.1, gives.2⟩
  | error fault =>
    rw [result] at gives
    exact .inr ⟨gives.1, fault, rfl, gives.2⟩

/-- Every chain of operands and operators has a tree that reads in order as the chain and
groups by precedence.  Wherever the chain stands with nothing behind it that prolongs it, the
reader passes the whole chain and gives that tree, or it fails for nesting too deeply; and it
fails only where there is less room than is enough for the chain. -/
theorem chain_read_by_precedence (chain : OperatorChain) :
    ∃ (tree : OperatorTree) (enough : Nat), tree.chain = chain ∧ tree.Grouped ∧
      ∀ (steps room : Nat) (cursor : Cursor) (rest : Word),
        cursor.terminals = chain.word ++ rest → Place steps (chain.word ++ rest) →
        Delimits 0 rest →
        (∃ value next, phrase steps room (.operand 0) cursor = .ok (value, next) ∧
            next.terminals = rest ∧ value.bare = tree.expr) ∨
          (room < enough ∧ FailsTooDeep (phrase steps room (.operand 0) cursor)) := by
  obtain ⟨tree, treeChain, grouped, derived⟩ := chain.exists_grouped
  refine ⟨tree, tree.levels + 1, treeChain, grouped, ?_⟩
  intro steps room cursor rest shape place stops
  exact operand_read_or_tooDeep (derived _ (Nat.lt_succ_self _)) shape place stops

/-- A number as an operand. -/
def Grammar.ChainOperand.number (value : Nat) : ChainOperand where
  word := [.symbol (.int value)]
  expr := .int .nowhere value
  levels := 0
  applies _ _ := .alone (.intro (.leaf rfl) .done)

/-- A chain of numbers. -/
def Grammar.OperatorChain.ofNumbers (first : Nat) (links : List (BinaryOperator × Nat)) :
    OperatorChain :=
  ⟨.number first, links.map fun (operator, value) => (operator, .number value)⟩

/-- A token at no place. -/
def Symbol.unplaced (symbol : Symbol) : Token :=
  ⟨symbol, [], .nowhere⟩

/-- The tokens behind the first number of a chain, up to the end of input. -/
def numberTokens (links : List (BinaryOperator × Nat)) : List Token :=
  links.flatMap (fun (operator, value) =>
      [(Symbol.mark operator.mark).unplaced, (Symbol.int value).unplaced]) ++
    [(Symbol.mark .endOfInput).unplaced]

/-- A cursor in front of a chain of numbers. -/
def Cursor.ofNumbers (before : Option Token) (first : Nat) (links : List (BinaryOperator × Nat)) :
    Cursor :=
  ⟨before, (Symbol.int first).unplaced, numberTokens links⟩

/-- The tokens of a chain of numbers are read as its word, whatever stands before them. -/
theorem terminalsAfter_numberTokens (before : Option Token) (links : List (BinaryOperator × Nat)) :
    terminalsAfter before (numberTokens links) =
      Links.word (links.map fun (operator, value) => (operator, .number value)) ++
        [.mark .endOfInput] := by
  induction links generalizing before with
  | nil => cases before <;> rfl
  | cons link links hypothesis =>
    obtain ⟨operator, value⟩ := link
    have noBracket : (Symbol.mark operator.mark).unplaced.isMark .openBracket = false := by
      refine decide_eq_false fun same => ?_
      have isOperator := operator.isOperator
      rw [Symbol.mark.inj same] at isOperator
      cases isOperator
    have isMark : Terminal.ofToken before (Symbol.mark operator.mark).unplaced =
        .mark operator.mark := by
      rw [Terminal.ofToken, noBracket]
      rfl
    show Terminal.ofToken before (Symbol.mark operator.mark).unplaced ::
      .symbol (.int value) :: terminalsAfter _ (numberTokens links) = _
    rw [isMark, hypothesis]
    rfl

theorem Cursor.terminals_ofNumbers
    (before : Option Token)
    (first : Nat)
    (links : List (BinaryOperator × Nat)) :
    (Cursor.ofNumbers before first links).terminals =
      (OperatorChain.ofNumbers first links).word ++ [Terminal.mark .endOfInput] :=
  congrArg (Terminal.symbol (.int first) :: ·) (terminalsAfter_numberTokens _ links)

/-- The operators and operands of `2 ^ 3 ^ 2 - 1 * 4 - 5` behind the first. -/
def mixedLinks : List (BinaryOperator × Nat) :=
  let caret : BinaryOperator := ⟨.caret, 5, rfl⟩
  let minus : BinaryOperator := ⟨.minus, 3, rfl⟩
  let star : BinaryOperator := ⟨.star, 4, rfl⟩
  [(caret, 3), (caret, 2), (minus, 1), (star, 4), (minus, 5)]

/-- `2 ^ 3 ^ 2 - 1 * 4 - 5` is `((2 ^ (3 ^ 2)) - (1 * 4)) - 5`. -/
theorem chain_read_by_precedence_mixed :
    (Cursor.ofNumbers none 2 mixedLinks).terminals =
        (OperatorChain.ofNumbers 2 mixedLinks).word ++ [.mark .endOfInput] ∧
      ∃ tree : OperatorTree, tree.chain = OperatorChain.ofNumbers 2 mixedLinks ∧ tree.Grouped ∧
        tree.expr =
          (let number (value : Nat) : Expr := .int .nowhere value
           let binary (left : Expr) (operator : Mark) (right : Expr) : Expr :=
             .binary .nowhere left (.mark operator) right
           binary
             (binary (binary (number 2) .caret (binary (number 3) .caret (number 2))) .minus
               (binary (number 1) .star (number 4)))
             .minus (number 5)) := by
  have shape := Cursor.terminals_ofNumbers none 2 mixedLinks
  have place : Place 12 ((OperatorChain.ofNumbers 2 mixedLinks).word ++ [.mark .endOfInput]) := by
    refine ⟨?_, by decide⟩
    iterate 11 refine .cons (by decide) ?_
    exact .last
  obtain ⟨tree, _, treeChain, grouped, outcome⟩ :=
    chain_read_by_precedence (.ofNumbers 2 mixedLinks)
  refine ⟨shape, tree, treeChain, grouped, ?_⟩
  rcases outcome 12 4 _ _ shape place (.of_mark rfl rfl) with
    ⟨value, next, read, -, same⟩ | ⟨-, fault, failed, -⟩
  · rw [← same]
    cases read
    rfl
  · cases failed

/-- The links of a chain of powers of one. -/
def powerLinks (count : Nat) : List (BinaryOperator × Nat) :=
  List.replicate count (⟨.caret, 5, rfl⟩, 1)

namespace Reading.FailsTooDeep

variable {α β : Type} {reading : Reading α} {continuation : α → Reading β} {cursor next : Cursor}
  {value : α}

/-- A reading fails for nesting if its first part does. -/
theorem first (failed : FailsTooDeep (reading cursor)) :
    FailsTooDeep ((reading >>= continuation) cursor) := by
  obtain ⟨fault, isError, tooDeep⟩ := failed
  refine ⟨fault, ?_, tooDeep⟩
  show (reading cursor >>= fun pair => continuation pair.1 pair.2) = .error fault
  rw [isError]
  rfl

/-- Behind a part that is read it fails if the rest does. -/
theorem later
    (read : reading cursor = .ok (value, next))
    (failed : FailsTooDeep (continuation value next)) :
    FailsTooDeep ((reading >>= continuation) cursor) := by
  show FailsTooDeep (reading cursor >>= fun pair => continuation pair.1 pair.2)
  rw [read]
  exact failed

/-- A chain of powers nests as deep as it is long: each power takes one level for its right
operand, where the next one stands. -/
theorem powers
    {steps room level count : Nat} {before : Option Token}
    (someSteps : steps ≠ 0)
    (long : room ≤ count)
    (below : level ≤ 5) :
    FailsTooDeep (phrase steps room (.operand level)
      (.ofNumbers before 1 (powerLinks count))) := by
  obtain ⟨steps, rfl⟩ := Nat.exists_eq_succ_of_ne_zero someSteps
  induction room generalizing level count before with
  | zero => exact ⟨_, rfl, _, rfl⟩
  | succ room hypothesis =>
    cases count with
    | zero => exact absurd long (Nat.not_succ_le_zero room)
    | succ count =>
      let one := (Symbol.int 1).unplaced
      let caret := (Symbol.mark .caret).unplaced
      have nested : FailsTooDeep (phrase (steps + 1) room (.operand 5)
          ⟨some caret, one, numberTokens (powerLinks count)⟩) :=
        hypothesis (Nat.le_of_succ_le_succ long) (Nat.le_refl 5)
      have applied : application (steps + 1) (phrase (steps + 1) room)
          (.ofNumbers before 1 (powerLinks (count + 1))) =
          .ok (.int .nowhere 1,
            ⟨some one, caret, one :: numberTokens (powerLinks count)⟩) := rfl
      refine .later applied (.later rfl ?_)
      show FailsTooDeep ((if 5 < level then _ else _ : Reading Expr) _)
      rw [if_neg (Nat.not_lt.mpr below)]
      exact .later rfl (.first nested)

end Reading.FailsTooDeep

/-- The tokens of `1 ^ 1 ^ ⋯ ^ 1` with a thousand operators are a chain, but do not fit in the
nesting room. -/
theorem power_chain_nests_too_deeply :
    (Cursor.ofNumbers none 1 (powerLinks 1000)).terminals =
        (OperatorChain.ofNumbers 1 (powerLinks 1000)).word ++ [.mark .endOfInput] ∧
      FailsTooDeep
        (phrase 2002 nestingRoom (.operand 0) (Cursor.ofNumbers none 1 (powerLinks 1000))) := by
  have long : nestingRoom ≤ 1000 := by decide
  exact ⟨Cursor.terminals_ofNumbers none 1 (powerLinks 1000),
    FailsTooDeep.powers (by decide) long (Nat.zero_le 5)⟩

end Offside
