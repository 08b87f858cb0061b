import Offside.Proofs.Printing.Tree

namespace Offside

/-!
# Words are derived as their trees

The word of a tree that can be written is derived as the bare tree, in as many levels of nesting
as the tree has.  How strong an expression is says which rule of the grammar derives it.
-/

variable {least : Nat}

namespace Grammar

/-- How a word is derived as an expression of some strength. -/
inductive Form (inner : Phrase → Word → Expr → Prop) : Nat → Word → Expr → Prop where
  | function
      {word : Word} {expr : Expr} :
      Expression inner word expr →
      Form inner 0 word expr
  | operators
      {strength : Nat} {word : Word} {expr : Expr} :
      strength < 6 →
      (∀ least, least ≤ strength → Operand inner least word expr) →
      Form inner strength word expr
  | application
      {word : Word} {expr : Expr} :
      Application inner word expr →
      Form inner 6 word expr
  | indexed
      {word : Word} {expr : Expr} :
      Indexed inner word expr →
      Form inner 7 word expr

section

variable {inner : Phrase → Word → Expr → Prop} {strength : Nat} {word : Word} {expr : Expr}
variable {operator : Mark} {precedence : Nat}

/-- A phrase has its own levels of nesting besides those of what is inside it. -/
theorem Within.of_levels
    {form : Phrase} {levels room : Nat}
    (shallow : levels + form.levels ≤ room)
    (phrase : ∀ inside, levels ≤ inside → PhraseOf (Within inside) form word expr) :
    Within room form word expr := by
  exact within_iff.mpr
    ⟨Nat.le_trans (Nat.le_add_left ..) shallow, phrase _ (Nat.le_sub_of_add_le shallow)⟩

namespace Form

theorem toIndexed (form : Form inner strength word expr) (strong : 7 ≤ strength) :
    Indexed inner word expr := by
  cases form with
  | indexed indexed => exact indexed
  | function
  | application => exact absurd strong (by decide)
  | operators weak => exact absurd strong (by omega)

theorem toOperand
    (form : Form inner strength word expr)
    (positive : 0 < least)
    (strong : least ≤ strength) :
    Operand inner least word expr := by
  cases form with
  | function => omega
  | operators _ operand => exact operand least strong
  | application application => exact application.operand least
  | indexed indexed => exact (Application.alone indexed).operand least

theorem toExpression (form : Form inner strength word expr) : Expression inner word expr := by
  cases form with
  | function expression => exact expression
  | operators _ operand => exact .operand (operand 0 (Nat.zero_le _))
  | application application => exact .operand (application.operand 0)
  | indexed indexed => exact .operand ((Application.alone indexed).operand 0)

/-- A word in parentheses has another level of nesting and all strength. -/
theorem grouped
    {levels room : Nat}
    (form : ∀ room, levels ≤ room → Form (Within room) strength word expr)
    (needed : Bool)
    (shallow : groupedLevels needed levels ≤ room) :
    Form (Within room) (if needed then 7 else strength) (Offside.grouped needed word) expr := by
  cases needed with
  | false => exact form room shallow
  | true =>
    have within : Within room .expression word expr :=
      .of_levels shallow fun inside fits => .expression (form inside fits).toExpression
    exact .indexed (Atom.group within).indexed

end Form

/-! ## Operators -/

theorem precedence_le_five (isOperator : (TokenKind.mark operator).precedence? = some precedence) :
    0 < precedence ∧ precedence ≤ 5 ∧
      ((TokenKind.mark operator).groupsRight = true ↔ precedence = 5) := by
  cases operator <;> cases isOperator <;> decide

/-- The operators that may stand in the left operand of another bind tighter than that one. -/
theorem precedence_lt_operandLevel
    {other : Mark} {tighter : Nat}
    (isOperator : (TokenKind.mark operator).precedence? = some precedence)
    (isOther : (TokenKind.mark other).precedence? = some tighter)
    (tight : (TokenKind.mark operator).leftStrength ≤ tighter) :
    precedence < operandLevel (.mark other) tighter := by
  obtain ⟨-, bounded, groups⟩ := precedence_le_five isOperator
  obtain ⟨-, otherBounded, otherGroups⟩ := precedence_le_five isOther
  have strength : (TokenKind.mark operator).strength = precedence := by
    rw [TokenKind.strength, isOperator]
    rfl
  unfold TokenKind.leftStrength at tight
  unfold operandLevel
  split at tight <;> split <;> simp_all <;> omega

/-- An operator behind a chain of operators that bind at least as tightly takes all of them as
its left operand. -/
theorem Operators.snoc
    {level : Nat} {first left right : Expr} {rest : Word}
    (chain : Operators inner level first rest left)
    (isOperator : (TokenKind.mark operator).precedence? = some precedence)
    (tight : (TokenKind.mark operator).leftStrength ≤ level)
    (below : least ≤ level)
    (loose : least ≤ precedence)
    (derived : inner (.operand (operandLevel (.mark operator) precedence)) word right) :
    Operators inner least first (rest ++ .mark operator :: word)
      (.binary .nowhere left (.mark operator) right) := by
  induction chain with
  | @done left =>
    have nothing : BindsLooser (operandLevel (.mark operator) precedence) [] :=
      fun _ none => nomatch none
    have single : Operators inner least left _ _ := .more isOperator loose derived nothing .done
    rwa [List.append_nil] at single
  | @more left' right' expr other tighter word' rest isOther bound derived' looser _
      hypothesis =>
      have stillLooser : BindsLooser (operandLevel (.mark other) tighter)
          (rest ++ .mark operator :: word) := by
        -- Only where the chain ends here is the operator behind it the next one.
        cases rest with
        | nil =>
          rintro _ ⟨⟩ precedence' isPrecedence
          have same : precedence' = precedence :=
            Option.some.inj (Eq.trans isPrecedence.symm isOperator)
          rw [same]
          exact precedence_lt_operandLevel isOperator isOther (Nat.le_trans tight bound)
        | cons => exact looser
      have longer := Operators.more isOther (Nat.le_trans below bound) derived' stillLooser
        hypothesis
      simpa using longer

/-- An operator with its operands, where the left one is strong enough. -/
theorem Operand.binary
    {left right : Expr} {leftWord : Word}
    (isOperator : (TokenKind.mark operator).precedence? = some precedence)
    (first : Operand inner (TokenKind.mark operator).leftStrength leftWord left)
    (derived : inner (.operand (operandLevel (.mark operator) precedence)) word right)
    (loose : least ≤ precedence) :
    Operand inner least (leftWord ++ (.mark operator :: word))
      (.binary .nowhere left (.mark operator) right) := by
  cases first with
  | intro application chain =>
    have below : least ≤ (TokenKind.mark operator).leftStrength := by
      unfold TokenKind.leftStrength TokenKind.strength
      rw [isOperator]
      split
      · exact Nat.le_succ_of_le loose
      · exact loose
    rw [List.append_assoc]
    exact .intro application
      (chain.snoc isOperator (Nat.le_refl _) below loose derived)

end

end Grammar

open Grammar

/-! ## Parts of a tree -/

/-- What is derived of an expression in every room that its levels fit in. -/
def Expr.Derived (expr : Expr) : Prop :=
  ∀ room, expr.levels ≤ room →
    (expr.writable false = true → Form (Within room) expr.strength expr.word expr.bare) ∧
      (expr.writable true = true → PhraseOf (Within room) .body expr.word expr.bare)

/-- What is derived of a statement in every room that its levels fit in. -/
def Stmt.Derived (stmt : Stmt) : Prop :=
  ∀ room, stmt.levels ≤ room → stmt.writable = true →
    Statement (Within room) stmt.word [stmt.bare]

namespace Expr

variable {expr : Expr} {room : Nat}

/-- An expression that is no block is a body as well. -/
theorem Derived.of_form
    (sameWritable : expr.writable true = expr.writable false)
    (form : ∀ room, expr.levels ≤ room → expr.writable false = true →
      Form (Within room) expr.strength expr.word expr.bare) :
    expr.Derived :=
  fun room shallow => ⟨form room shallow,
    fun writable => .body (form room shallow (sameWritable ▸ writable)).toExpression⟩

theorem Derived.grouped
    (derived : expr.Derived)
    (writable : expr.writable false = true)
    (needed : Bool)
    (shallow : groupedLevels needed expr.levels ≤ room) :
    Form (Within room) (if needed then 7 else expr.strength) (grouped needed expr.word)
      expr.bare :=
  Form.grouped (fun room fits => (derived room fits).1 writable) needed shallow

/-- An expression in parentheses has all strength, and without them enough. -/
theorem le_grouped_strength (bounded : least ≤ 7) (expr : Expr) :
    least ≤ if decide (expr.strength < least) then 7 else expr.strength := by
  split
  · exact bounded
  · next strong => simpa using strong

/-- What an index or an argument stands behind. -/
theorem Derived.indexed
    (derived : expr.Derived)
    (writable : expr.writable false = true)
    (shallow : groupedLevels (expr.strength < 7) expr.levels ≤ room) :
    Indexed (Within room) (Offside.grouped (expr.strength < 7) expr.word) expr.bare :=
  (derived.grouped writable _ shallow).toIndexed (le_grouped_strength (Nat.le_refl 7) expr)

/-- What stands beside an operator. -/
theorem Derived.operand
    (derived : expr.Derived)
    (writable : expr.writable false = true)
    (positive : 0 < least)
    (bounded : least ≤ 7)
    (shallow : groupedLevels (expr.strength < least) expr.levels ≤ room) :
    Operand (Within room) least (Offside.grouped (expr.strength < least) expr.word) expr.bare :=
  (derived.grouped writable _ shallow).toOperand positive (le_grouped_strength bounded expr)

/-- An expression inside another phrase. -/
theorem Derived.expression
    (derived : expr.Derived)
    (writable : expr.writable false = true)
    (needed : Bool)
    (shallow : groupedLevels needed expr.levels + 6 ≤ room) :
    Within room .expression (Offside.grouped needed expr.word) expr.bare :=
  .of_levels shallow fun _ fits => .expression (derived.grouped writable needed fits).toExpression

/-- The body of a binding or a function. -/
theorem Derived.body
    (derived : expr.Derived)
    (writable : expr.writable true = true)
    (shallow : expr.levels + 6 ≤ room) :
    Within room .body expr.word expr.bare :=
  .of_levels shallow fun inside fits => (derived inside fits).2 writable

/-- Elements with commas between them. -/
theorem elements_series
    {elements : List Expr}
    (derived : ∀ element ∈ elements, element.Derived)
    (writable : Expr.writableAll elements = true)
    (shallow : Expr.elementLevels elements ≤ room)
    (nonempty : elements ≠ []) :
    Series .comma true (Element (Within room)) (joined .comma (Expr.elementWords elements))
      (Expr.bareAll elements) := by
  induction elements with
  | nil => exact (nonempty rfl).elim
  | cons element elements hypothesis =>
    obtain ⟨firstWritable, restWritable⟩ := Bool.and_eq_true_iff.mp writable
    obtain ⟨firstShallow, restShallow⟩ := Nat.max_le.mp shallow
    obtain ⟨firstDerived, restDerived⟩ := List.forall_mem_cons.mp derived
    have first : Element (Within room)
        (Offside.grouped (element.isLooseElement !elements.isEmpty) element.word)
        [element.bare] :=
      .intro (firstDerived.expression firstWritable _ firstShallow)
    cases elements with
    | nil => exact .single first
    | cons other others =>
      exact .cons first (hypothesis restDerived restWritable restShallow nofun)

theorem strength_of_not_isLoose (single : expr.isLoose = false) : expr.strength = 7 := by
  cases expr <;> first | rfl | cases single

/-- Arguments one after another. -/
theorem arguments_derived
    {arguments : List Expr}
    (derived : ∀ argument ∈ arguments, argument.Derived)
    (writable : Expr.writableAll arguments = true)
    (shallow : Expr.argumentLevels arguments ≤ room) :
    Arguments (Within room) (Expr.argumentsWord arguments) (Expr.bareAll arguments) := by
  induction arguments with
  | nil => exact .done
  | cons argument arguments hypothesis =>
    obtain ⟨firstWritable, restWritable⟩ := Bool.and_eq_true_iff.mp writable
    obtain ⟨firstShallow, restShallow⟩ := Nat.max_le.mp shallow
    obtain ⟨firstDerived, restDerived⟩ := List.forall_mem_cons.mp derived
    have strong : 7 ≤ if argument.isLoose then 7 else argument.strength := by
      split
      · exact Nat.le_refl 7
      · next single =>
          exact Nat.le_of_eq (strength_of_not_isLoose (Bool.not_eq_true _ ▸ single)).symm
    exact .more ((firstDerived.grouped firstWritable _ firstShallow).toIndexed strong)
      (hypothesis restDerived restWritable restShallow)

theorem grouped_ne_nil {word : Word} (nonempty : word ≠ []) (needed : Bool) :
    Offside.grouped needed word ≠ [] := by
  cases needed with
  | false => exact nonempty
  | true => exact nofun

theorem word_ne_nil : ∀ expr : Expr, expr.word ≠ []
  | .int _ _ | .float _ _ | .string _ _ | .char _ _ | .bool _ _ | .identifier _ _ | .array _ _
  | .set _ _ | .map _ _ | .function _ _ _ | .block _ _ => by simp [Expr.word]
  | .binary _ left _ _ => by simp [Expr.word, grouped_ne_nil left.word_ne_nil]
  | .call _ callee _ => by simp [Expr.word, grouped_ne_nil callee.word_ne_nil]
  | .index _ _ _ => by simp [Expr.word]

/-- Only a name has the word of a name. -/
theorem eq_identifier_of_word {name : Text} (isName : expr.word = [.name name]) :
    ∃ span, expr = .identifier span name := by
  cases expr with
  | identifier span =>
    cases isName
    exact ⟨span, rfl⟩
  | binary _ left operator right =>
    simp [Expr.word, List.append_eq_singleton_iff, grouped_ne_nil, word_ne_nil] at isName
  | call _ callee arguments =>
    cases arguments with
    | nil => simp [Expr.word, List.append_eq_singleton_iff, grouped_ne_nil, word_ne_nil] at isName
    | cons =>
      simp [Expr.word, Expr.argumentsWord, List.append_eq_singleton_iff, grouped_ne_nil,
        word_ne_nil] at isName
  | index _ target =>
    simp [Expr.word, List.append_eq_singleton_iff, grouped_ne_nil, word_ne_nil] at isName
  | _ => simp [Expr.word] at isName

/-- Map entries with commas between them. -/
theorem entries_series
    {entries : List Entry}
    (derived : ∀ place key value, Entry.pair place key value ∈ entries →
      key.Derived ∧ value.Derived)
    (writable : Entry.writableAll entries = true)
    (shallow : Entry.levels entries ≤ room)
    (nonempty : entries ≠ []) :
    Series .comma true (Grammar.MapEntry (Within room)) (joined .comma (Entry.words entries))
      (Entry.bareAll entries) := by
  induction entries with
  | nil => exact (nonempty rfl).elim
  | cons entry entries hypothesis =>
    obtain ⟨place, key, value⟩ := entry
    obtain ⟨firstWritable, restWritable⟩ := Bool.and_eq_true_iff.mp writable
    obtain ⟨keyWritable, valueWritable⟩ := Bool.and_eq_true_iff.mp firstWritable
    obtain ⟨firstShallow, restShallow⟩ := Nat.max_le.mp shallow
    obtain ⟨keyDerived, valueDerived⟩ := derived place key value List.mem_cons_self
    have restDerived (place : Span) (key value : Expr)
        (member : Entry.pair place key value ∈ entries) :=
      derived place key value (List.mem_cons_of_mem _ member)
    have noName (name : Text) : Offside.grouped key.isLooseKey key.word ≠ [.name name] := by
      unfold Offside.grouped
      split
      · exact nofun
      · next notLoose =>
          intro same
          obtain ⟨span, rfl⟩ := eq_identifier_of_word same
          exact notLoose rfl
    have first : Grammar.MapEntry (Within room)
        (Offside.grouped key.isLooseKey key.word ++
          .mark .colon :: Offside.grouped (value.isLooseElement !entries.isEmpty) value.word)
        [.pair .nowhere key.bare value.bare] :=
      .keyed noName (keyDerived.expression keyWritable _ (by omega))
        (valueDerived.expression valueWritable _ (by omega))
    cases entries with
    | nil => exact .single first
    | cons other others =>
      cases other
      exact .cons first (hypothesis restDerived restWritable restShallow nofun)

end Expr

/-- Statements with separators between them. -/
theorem Stmt.statements_derived
    {stmts : List Stmt} {room : Nat}
    (derived : ∀ stmt ∈ stmts, stmt.Derived)
    (writable : Stmt.writableAll stmts = true)
    (shallow : Stmt.levelsAll stmts ≤ room)
    (nonempty : stmts ≠ []) :
    Statements (Within room) (joined .itemSeparator (Stmt.words stmts)) (Stmt.bareAll stmts) := by
  induction stmts with
  | nil => exact (nonempty rfl).elim
  | cons stmt stmts hypothesis =>
    obtain ⟨firstWritable, restWritable⟩ := Bool.and_eq_true_iff.mp writable
    obtain ⟨firstShallow, restShallow⟩ := Nat.max_le.mp shallow
    obtain ⟨firstDerived, restDerived⟩ := List.forall_mem_cons.mp derived
    have first := firstDerived room firstShallow firstWritable
    cases stmts with
    | nil => exact .single first
    | cons other others =>
      exact .cons first (hypothesis restDerived restWritable restShallow nofun)

/-! ## Whole trees -/

namespace Expr

theorem derived_leaf (expr : Expr) (isLeaf : expr.isLeaf = true) : expr.Derived := by
  cases expr with
  | int
  | string
  | char
  | bool
  | identifier => exact .of_form rfl fun _ _ _ => .indexed (Atom.leaf rfl).indexed
  | float => exact .of_form rfl fun _ _ writable => nomatch writable
  | _ => cases isLeaf

theorem derived_array
    (span : Span)
    (elements : List Expr)
    (derived : ∀ element ∈ elements, element.Derived) :
    (Expr.array span elements).Derived := by
  refine .of_form rfl fun room shallow writable => .indexed (Atom.indexed ?_)
  cases elements with
  | nil => exact .emptyArray
  | cons => exact .array (elements_series derived writable shallow nofun)

theorem derived_set
    (span : Span)
    (elements : List Expr)
    (derived : ∀ element ∈ elements, element.Derived) :
    (Expr.set span elements).Derived := by
  refine .of_form rfl fun room shallow writable => ?_
  obtain ⟨nonempty, writable⟩ := Bool.and_eq_true_iff.mp writable
  have series := elements_series derived writable shallow (by simpa using nonempty)
  exact .indexed (Atom.set series).indexed

theorem derived_map
    (span : Span)
    (entries : List Entry)
    (derived : ∀ place key value, Entry.pair place key value ∈ entries →
      key.Derived ∧ value.Derived) :
    (Expr.map span entries).Derived := by
  refine .of_form rfl fun room shallow writable => ?_
  obtain ⟨nonempty, writable⟩ := Bool.and_eq_true_iff.mp writable
  have series := entries_series derived writable shallow (by simpa using nonempty)
  exact .indexed (Atom.map series).indexed

theorem derived_binary
    (span : Span)
    (left : Expr)
    (operator : TokenKind)
    (right : Expr)
    (leftDerived : left.Derived)
    (rightDerived : right.Derived) :
    (Expr.binary span left operator right).Derived := by
  refine .of_form rfl fun room shallow writable => ?_
  obtain ⟨writable, rightWritable⟩ := Bool.and_eq_true_iff.mp writable
  obtain ⟨isOperator, leftWritable⟩ := Bool.and_eq_true_iff.mp writable
  obtain ⟨leftShallow, rightShallow⟩ := Nat.max_le.mp shallow
  obtain ⟨precedence, isOperator⟩ := Option.isSome_iff_exists.mp isOperator
  obtain ⟨mark, rfl⟩ : ∃ mark, operator = .mark mark := by
    cases operator <;> first | exact ⟨_, rfl⟩ | cases isOperator
  obtain ⟨positive, bounded, -⟩ := precedence_le_five isOperator
  obtain rfl : (TokenKind.mark mark).strength = precedence := by
    rw [TokenKind.strength, isOperator]
    rfl
  have leftBounds : 0 < (TokenKind.mark mark).leftStrength ∧
      (TokenKind.mark mark).leftStrength ≤ 7 := by
    unfold TokenKind.leftStrength
    split <;> omega
  have rightBounds : 0 < (TokenKind.mark mark).rightStrength ∧
      (TokenKind.mark mark).rightStrength ≤ 7 := by
    unfold TokenKind.rightStrength operandLevel
    split <;> omega
  have first := leftDerived.operand leftWritable leftBounds.1 leftBounds.2 leftShallow
  have second : Within room (.operand (TokenKind.mark mark).rightStrength) _ right.bare :=
    .of_levels rightShallow fun _ fits =>
      .operand (rightDerived.operand rightWritable rightBounds.1 rightBounds.2 fits)
  exact .operators (Nat.lt_succ_of_le bounded) fun _ => Operand.binary isOperator first second

theorem derived_function
    (span : Span)
    (parameters : List Text)
    (body : Expr)
    (derived : body.Derived) :
    (Expr.function span parameters body).Derived := by
  refine .of_form rfl fun room shallow writable => ?_
  obtain ⟨writable, bodyWritable⟩ := Bool.and_eq_true_iff.mp writable
  obtain ⟨-, distinct⟩ := Bool.and_eq_true_iff.mp writable
  exact .function (.function (of_decide_eq_true distinct) (derived.body bodyWritable shallow))

theorem derived_call
    (span : Span)
    (callee : Expr)
    (arguments : List Expr)
    (calleeDerived : callee.Derived)
    (derived : ∀ argument ∈ arguments, argument.Derived) :
    (Expr.call span callee arguments).Derived := by
  refine .of_form rfl fun room shallow writable => .application ?_
  obtain ⟨calleeWritable, writable⟩ := Bool.and_eq_true_iff.mp writable
  obtain ⟨calleeShallow, shallow⟩ := Nat.max_le.mp shallow
  have indexed := calleeDerived.indexed calleeWritable calleeShallow
  cases arguments with
  | nil => exact .emptyCall indexed
  | cons => exact .call indexed (arguments_derived derived writable shallow) nofun

theorem derived_index
    (span : Span)
    (target key : Expr)
    (targetDerived : target.Derived)
    (keyDerived : key.Derived) :
    (Expr.index span target key).Derived := by
  refine .of_form rfl fun room shallow writable => .indexed ?_
  obtain ⟨targetWritable, keyWritable⟩ := Bool.and_eq_true_iff.mp writable
  obtain ⟨targetShallow, keyShallow⟩ := Nat.max_le.mp shallow
  have within := keyDerived.expression keyWritable false keyShallow
  exact (targetDerived.indexed targetWritable targetShallow).snoc within

theorem derived_block
    (span : Span)
    (statements : List Stmt)
    (derived : ∀ stmt ∈ statements, stmt.Derived) :
    (Expr.block span statements).Derived := by
  refine fun room shallow => ⟨(nomatch ·), fun writable => ?_⟩
  obtain ⟨nonempty, writable⟩ := Bool.and_eq_true_iff.mp writable
  exact .block (Stmt.statements_derived derived writable shallow (by simpa using nonempty))

end Expr

/-- A function with parameters is bound with them, any other value by itself. -/
theorem Stmt.derived_binding
    (span : Span)
    (mutable : Bool)
    (name : Text)
    (value : Expr)
    (derived : value.Derived)
    (bodyDerived : ∀ place parameters body, value = .function place parameters body →
      body.Derived) :
    (Stmt.binding span mutable name value).Derived := by
  intro room shallow writable
  obtain ⟨-, valueWritable⟩ := Bool.and_eq_true_iff.mp writable
  have plain (fits : value.levels + 6 ≤ room) : Statement (Within room)
      (.mark .letWord :: .name name :: .mark .assign :: value.word)
      [.binding .nowhere false name value.bare] :=
    .binding (Binding.intro List.Pairwise.nil (derived.body valueWritable fits))
  cases mutable with
  | true => exact .mutable (derived.body valueWritable shallow)
  | false =>
    cases value with
    | function place parameters body =>
      cases parameters with
      | nil => exact plain shallow
      | cons parameter parameters =>
        obtain ⟨parametersWritable, bodyWritable⟩ := Bool.and_eq_true_iff.mp valueWritable
        obtain ⟨-, distinct⟩ := Bool.and_eq_true_iff.mp parametersWritable
        exact .binding (Binding.intro (of_decide_eq_true distinct)
          ((bodyDerived place _ body rfl).body bodyWritable shallow))
    | _ => exact plain shallow

theorem treeSteps_derived : TreeSteps Expr.Derived Stmt.Derived where
  leaf := Expr.derived_leaf
  array := Expr.derived_array
  set := Expr.derived_set
  map := Expr.derived_map
  binary := Expr.derived_binary
  function := Expr.derived_function
  call := Expr.derived_call
  index := Expr.derived_index
  block := Expr.derived_block
  binding := Stmt.derived_binding
  assignment _ _ _ derived _ shallow writable :=
    .assignment (derived.body (Bool.and_eq_true_iff.mp writable).2 shallow)
  expression _ _ derived room shallow writable :=
    .expression ((derived room shallow).1 writable).toExpression

end Offside
