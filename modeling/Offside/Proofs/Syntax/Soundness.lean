import Offside.Proofs.Syntax.Outcome

namespace Offside

/-!
# Readers accept only what the grammar derives

What a reader passes is a word of the grammar for the tree that it gives.  Each reader is
sound if the reader of the phrases inside it is, so `phrase` is sound by induction on the
nesting room.  Apart from the nesting room, a reader is bounded by the number of tokens; a
place carries that bound.
-/

open Grammar

/-- A word that is read to its end in at most so many steps. -/
structure Place (steps : Nat) (word : Word) : Prop where
  ended : Ended word
  short : word.length ≤ steps

namespace Place

variable {steps : Nat} {terminal : Terminal} {word rest : Word}

/-- Passing one terminal leaves a place to read at. -/
theorem tail (place : Place steps (terminal :: rest)) (inside : terminal ≠ .mark .endOfInput) :
    Place steps rest :=
  ⟨place.ended.tail inside, Nat.le_of_succ_le place.short⟩

/-- So does passing a word, if what is left ends once. -/
theorem behind (place : Place steps (word ++ rest)) (ended : Ended rest) : Place steps rest := by
  refine ⟨ended, Nat.le_trans ?_ place.short⟩
  simp

theorem after (place : Place steps (word ++ rest)) (nonempty : rest ≠ []) : Place steps rest :=
  place.behind (place.ended.of_append nonempty)

/-- There is always something to read at a place. -/
theorem exists_cons (place : Place steps word) :
    ∃ terminal rest, word = terminal :: rest :=
  List.exists_cons_of_ne_nil place.ended.ne_nil

end Place

/-- A round of a loop passes at least one terminal. -/
theorem length_le_of_cons_append
    {steps : Nat} {terminal : Terminal} {word rest : Word}
    (short : (terminal :: (word ++ rest)).length ≤ steps + 1) :
    rest.length ≤ steps := by
  simp only [List.length_cons, List.length_append] at short
  omega

namespace Reading

/-- What a reader accepts is a word of some kind in front of what is left. -/
def Consumes {α : Type} (reading : Reading α) (before : Word) (kind : Word → α → Prop) : Prop :=
  Gives reading before
    (fun after value => ∃ word, before = word ++ after ∧ Ended after ∧ kind word value)
    fun _ => True

/-- Parameters are distinct names up to their end. -/
theorem parametersFrom_takes
    {terminator : Mark}
    (noOpening : terminator ≠ .openBracket)
    {steps : Nat} {names : List Text} {before : Word}
    (place : Place steps before)
    (distinct : names.Nodup) :
    Gives (parametersFrom terminator steps names) before
      (fun after value => ∃ parameters rest,
        before = parameters.map .name ++ after ∧ after = .mark terminator :: rest ∧
          Ended after ∧ value = names ++ parameters ∧ value.Nodup)
      fun _ => True := by
  induction steps generalizing names before with
  | zero =>
    exact (place.ended.ne_nil (List.length_eq_zero_iff.mp (Nat.le_zero.mp place.short))).elim
  | succ steps hypothesis =>
    obtain ⟨terminal, rest, rfl⟩ := place.exists_cons
    refine .go .current fun token same => ?_
    split
    · next name isName =>
        have isTerminal := Terminal.eq_name_iff.mpr (same.symm.trans isName)
        subst isTerminal
        have restPlace : Place steps rest :=
          ⟨place.ended.tail nofun, Nat.le_of_succ_le_succ place.short⟩
        refine .go (.advance nofun restPlace.ended.ne_nil) fun _ _ => ?_
        split
        · exact .failAt trivial
        · next isNew =>
            have distinctMore : (names ++ [name]).Nodup := by
              simp only [List.contains_eq_mem, decide_eq_true_eq] at isNew
              refine List.nodup_append.mpr ⟨distinct, by simp, ?_⟩
              rintro other member _ isLast rfl
              exact isNew (List.mem_singleton.mp isLast ▸ member)
            refine (hypothesis restPlace distinctMore).mono ?_
            rintro _ value ⟨parameters, more, rfl, rfl, ended, rfl, nodup⟩
            exact ⟨name :: parameters, more, rfl, rfl, ended, by simp, by simpa using nodup⟩
    · refine .look (.atMark noOpening) ?_
      split
      · next found =>
          have isTerminator := of_decide_eq_true found
          subst isTerminator
          exact .pure ⟨[], rest, rfl, rfl, place.ended, by simp, distinct⟩
      · exact .expected fun _ => trivial

/-- What closes a bracket is its closing mark. -/
theorem closeBracket_takes
    {opening : Token} {closer : Mark} {before : Word}
    (ended : Ended before)
    (noOpening : closer ≠ .openBracket)
    (inside : closer ≠ .endOfInput) :
    Gives (closeBracket opening closer) before
      (fun after _ => before = .mark closer :: after ∧ Ended after) fun _ => True := by
  obtain ⟨terminal, rest, rfl⟩ := List.exists_cons_of_ne_nil ended.ne_nil
  have goesOn (same : terminal = .mark closer) : Ended rest :=
    ended.tail fun isEnd => inside (by cases same.symm.trans isEnd; rfl)
  refine (Gives.closeBracket noOpening inside (fun same => (goesOn same).ne_nil)
    fun _ _ => trivial).mono ?_
  rintro _ _ ⟨rfl, rfl⟩
  exact ⟨rfl, goesOn rfl⟩

/-- A binding with parameters binds a function. -/
theorem bare_bindingValue (span : Span) (parameters : List Text) (body : Expr) :
    Expr.bare (if parameters.isEmpty then body else .function span parameters body) =
      bindingValue parameters body.bare := by
  unfold bindingValue
  cases parameters <;> rfl

section

variable {inner : Phrase → Word → Expr → Prop} {steps : Nat} {nested : Phrase → Reading Expr}
variable {rounds : Nat}

/-- A reader of phrases gives their trees; behind an operand no operator of its precedence is
left. -/
def Sound (inner : Phrase → Word → Expr → Prop) (steps : Nat) (nested : Phrase → Reading Expr) :
    Prop :=
  ∀ form before, Place steps before → Loose before →
    Gives (nested form) before
      (fun after value => ∃ word, before = word ++ after ∧ Ended after ∧
        inner form word value.bare ∧ ∀ least, form = .operand least → BindsLooser least after)
      fun _ => True

/-- At a place, a sound reader of phrases takes words of the grammar. -/
theorem Sound.takes
    (sound : Sound inner steps nested)
    {form : Phrase} {before : Word}
    (place : Place steps before)
    (loose : Loose before) :
    Consumes (nested form) before fun word value => inner form word value.bare := by
  refine (sound form before place loose).mono ?_
  rintro after value ⟨word, split, ended, derived, -⟩
  exact ⟨word, split, ended, derived⟩

variable (sound : Sound inner steps nested) {before rest : Word} {start : Token}
  (place : Place steps before)
include sound place

/-- From the name on, a binding is read as the grammar has it. -/
theorem bindingFrom_takes :
    Consumes (bindingFrom steps nested start) before fun word stmt =>
      Binding inner word [stmt.bare] := by
  obtain ⟨terminal, rest, rfl⟩ := place.exists_cons
  refine .bind (.requireName (fun _ same => (place.tail (same ▸ nofun)).ended.ne_nil)
    fun _ _ => trivial) ?_
  rintro _ ⟨nameToken, name⟩ ⟨rfl, rfl⟩
  refine .bind (parametersFrom_takes Mark.noConfusion (place.tail nofun) List.nodup_nil) ?_
  rintro _ parameters ⟨_, word, rfl, rfl, ended, rfl, distinct⟩
  refine .bind (.requireMark Mark.noConfusion Mark.noConfusion
    (fun _ => (ended.tail nofun).ne_nil) fun _ _ => trivial) ?_
  rintro _ _ ⟨rfl, -, loose⟩
  have bodyPlace := ((place.tail nofun).behind ended).tail nofun
  refine .bind (sound.takes bodyPlace (loose rfl)) ?_
  rintro _ body ⟨word, rfl, bodyEnded, derived⟩
  refine .span fun _ => ?_
  refine .pure ⟨.name name :: (parameters.map .name ++ .mark .assign :: word), by simp,
    bodyEnded, ?_⟩
  show Binding inner _ [.binding .nowhere false name (Expr.bare _)]
  rw [bare_bindingValue]
  exact .intro distinct derived

/-- Further bindings of a group are read behind separators. -/
theorem bindingsFrom_takes {bindings : List Stmt} :
    Consumes (bindingsFrom steps nested rounds bindings) before fun word all =>
      ∃ more, all = bindings ++ more ∧
        Rest .itemSeparator false (Binding inner) word (Stmt.bareAll more) := by
  induction rounds generalizing before bindings with
  | zero => exact .pure ⟨[], rfl, place.ended, [], by simp, .done⟩
  | succ rounds hypothesis =>
    obtain ⟨terminal, rest, rfl⟩ := place.exists_cons
    by_cases separated : terminal = .mark .itemSeparator
    · subst separated
      have restPlace := place.tail nofun
      refine .bind (.passMark_of_eq Mark.noConfusion Mark.noConfusion restPlace.ended.ne_nil) ?_
      rintro _ _ ⟨rfl, rfl, -⟩
      obtain ⟨terminal, rest, rfl⟩ := restPlace.exists_cons
      refine .go .current fun start _ => ?_
      refine .bind (bindingFrom_takes sound restPlace) ?_
      rintro after binding ⟨word, split, ended, derived⟩
      rw [split] at restPlace ⊢
      refine (hypothesis (restPlace.behind ended)).mono ?_
      rintro _ _ ⟨others, rfl, ended, more, rfl, further⟩
      refine ⟨.mark .itemSeparator :: (word ++ others), by simp, ended, binding :: more,
        by simp, ?_⟩
      exact .more derived further
    · refine .bind (.passMark_of_ne Mark.noConfusion separated) ?_
      rintro _ _ ⟨rfl, rfl⟩
      exact .pure ⟨[], rfl, place.ended, [], by simp, .done⟩

omit place in
/-- Behind `let` stands one binding, or a block of them. -/
theorem letStatement_takes (place : Place steps (.mark .letWord :: rest)) :
    Consumes (letStatement steps nested) (.mark .letWord :: rest) fun word all =>
      Statement inner word (Stmt.bareAll all) := by
  have restPlace := place.tail nofun
  refine .go (.advance nofun restPlace.ended.ne_nil) fun start _ => ?_
  obtain ⟨terminal, rest, rfl⟩ := restPlace.exists_cons
  by_cases grouped : terminal = .mark .blockStart
  · subst grouped
    have groupPlace := restPlace.tail nofun
    refine .pass Mark.noConfusion Mark.noConfusion groupPlace.ended.ne_nil fun _ => ?_
    obtain ⟨terminal, rest, rfl⟩ := groupPlace.exists_cons
    refine .go .current fun _ _ => ?_
    refine .bind (bindingFrom_takes sound groupPlace) ?_
    rintro after first ⟨word, split, ended, derived⟩
    rw [split] at groupPlace ⊢
    refine .bind (bindingsFrom_takes sound (groupPlace.behind ended)) ?_
    rintro closing _ ⟨others, rfl, ended, more, rfl, further⟩
    obtain ⟨terminal, rest, rfl⟩ := List.exists_cons_of_ne_nil ended.ne_nil
    refine .bind (.requireMark Mark.noConfusion Mark.noConfusion
      (fun same => (ended.tail (same ▸ nofun)).ne_nil) fun _ _ => trivial) ?_
    rintro _ _ ⟨rfl, rfl, -⟩
    refine .pure ⟨.mark .letWord :: .mark .blockStart ::
      (word ++ others ++ [Terminal.mark .blockEnd]), by simp, ended.tail nofun, ?_⟩
    exact .bindings (.intro derived further)
  · refine .look (.passMark_of_ne Mark.noConfusion grouped) ?_
    refine .bind (bindingFrom_takes sound restPlace) ?_
    rintro _ binding ⟨word, split, ended, derived⟩
    exact .pure ⟨.mark .letWord :: word, by rw [split]; rfl, ended, .binding derived⟩

omit place in
/-- Behind `var` stands a name without parameters. -/
theorem varStatement_takes (place : Place steps (.mark .varWord :: rest)) :
    Consumes (varStatement nested) (.mark .varWord :: rest) fun word stmt =>
      Statement inner word [stmt.bare] := by
  have restPlace := place.tail nofun
  refine .bind (.advance nofun restPlace.ended.ne_nil) ?_
  rintro _ start ⟨rfl, -⟩
  obtain ⟨terminal, rest, rfl⟩ := restPlace.exists_cons
  refine .bind (.requireName (fun _ same => (restPlace.tail (same ▸ nofun)).ended.ne_nil)
    fun _ _ => trivial) ?_
  rintro _ ⟨_, name⟩ ⟨rfl, rfl⟩
  have assignPlace := restPlace.tail nofun
  obtain ⟨terminal, rest, rfl⟩ := assignPlace.exists_cons
  refine .bind (.requireMark Mark.noConfusion Mark.noConfusion
    (fun same => (assignPlace.tail (same ▸ nofun)).ended.ne_nil) fun _ _ => trivial) ?_
  rintro _ _ ⟨rfl, rfl, loose⟩
  refine .bind (sound.takes (assignPlace.tail nofun) (loose rfl)) ?_
  rintro _ body ⟨word, rfl, ended, derived⟩
  refine .span fun _ => ?_
  exact .pure ⟨.mark .varWord :: .name name :: .mark .assign :: word, rfl, ended,
    .mutable derived⟩

omit place in
/-- An assignment starts with its name. -/
theorem assignment_takes
    {name : Text}
    (place : Place steps (.name name :: .mark .assign :: rest)) :
    Consumes (assignment nested name) (.name name :: .mark .assign :: rest) fun word stmt =>
      Statement inner word [stmt.bare] := by
  have bodyPlace := (place.tail nofun).tail nofun
  refine .bind (.advance nofun nofun) ?_
  rintro _ start ⟨rfl, -⟩
  refine .go (.advance nofun bodyPlace.ended.ne_nil) fun _ ⟨_, loose⟩ => ?_
  refine .bind (sound.takes bodyPlace (loose rfl)) ?_
  rintro _ body ⟨word, rfl, ended, derived⟩
  refine .span fun _ => ?_
  exact .pure ⟨.name name :: .mark .assign :: word, rfl, ended, .assignment derived⟩

omit place in
/-- A function is read with distinct parameters and a body. -/
theorem function_takes (place : Place steps (.mark .funWord :: rest)) :
    Consumes (function steps nested) (.mark .funWord :: rest) fun word expr =>
      Expression inner word expr.bare := by
  have restPlace := place.tail nofun
  refine .bind (.advance nofun restPlace.ended.ne_nil) ?_
  rintro _ start ⟨rfl, -⟩
  refine .bind (parametersFrom_takes Mark.noConfusion restPlace List.nodup_nil) ?_
  rintro _ parameters ⟨_, word, rfl, rfl, ended, rfl, distinct⟩
  have bodyPlace := (restPlace.behind ended).tail nofun
  refine .bind (.advance nofun bodyPlace.ended.ne_nil) ?_
  rintro _ _ ⟨rfl, -, loose⟩
  refine .bind (sound.takes bodyPlace (loose rfl)) ?_
  rintro _ body ⟨word, rfl, ended, derived⟩
  refine .span fun _ => ?_
  refine .pure ⟨.mark .funWord :: (parameters.map .name ++ .mark .arrow :: word), by simp,
    ended, ?_⟩
  exact .function distinct derived

/-! ## Atoms -/

omit place in
/-- Parentheses around an expression leave no trace in its tree. -/
theorem grouped_takes (place : Place steps (.mark .openParen :: rest)) :
    Consumes (grouped nested) (.mark .openParen :: rest) fun word expr =>
      Atom inner word expr.bare := by
  have restPlace := place.tail nofun
  refine .bind (.advance nofun restPlace.ended.ne_nil) ?_
  rintro _ start ⟨rfl, -, loose⟩
  obtain ⟨terminal, rest, rfl⟩ := restPlace.exists_cons
  refine .go .current fun token _ => ?_
  split
  · exact .failAt trivial
  · refine .bind (sound.takes restPlace (loose rfl)) ?_
    rintro after expr ⟨word, split, ended, derived⟩
    refine .bind (closeBracket_takes ended Mark.noConfusion Mark.noConfusion) ?_
    rintro _ _ ⟨rfl, goesOn⟩
    exact .pure ⟨.mark .openParen :: (word ++ [Terminal.mark .closeParen]), by simp [split], goesOn,
      .group derived⟩

/-- Elements are read up to the end of an array, the last one with or without a comma. -/
theorem elementsFrom_takes (loose : Loose before) {elements : List Expr} :
    Consumes (elementsFrom nested rounds elements) before fun word all =>
      ∃ more, all = elements ++ more ∧ (word = [] ∧ more = [] ∨
        Series .comma true (Element inner) word (Expr.bareAll more)) := by
  induction rounds generalizing before elements with
  | zero => exact .pure ⟨[], rfl, place.ended, [], by simp, .inl ⟨rfl, rfl⟩⟩
  | succ rounds hypothesis =>
    obtain ⟨terminal, rest, rfl⟩ := place.exists_cons
    refine .look (.atMark Mark.noConfusion) ?_
    split
    · exact .pure ⟨[], rfl, place.ended, [], by simp, .inl ⟨rfl, rfl⟩⟩
    · refine .bind (sound.takes place loose) ?_
      rintro after element ⟨word, split, ended, derived⟩
      rw [split] at place ⊢
      have afterPlace := place.behind ended
      obtain ⟨terminal, rest, rfl⟩ := afterPlace.exists_cons
      by_cases separated : terminal = .mark .comma
      · subst separated
        have restPlace := afterPlace.tail nofun
        refine .bind (.passMark_of_eq Mark.noConfusion Mark.noConfusion
          restPlace.ended.ne_nil) ?_
        rintro _ _ ⟨rfl, rfl, loose⟩
        refine (hypothesis restPlace (loose rfl)).mono ?_
        rintro _ _ ⟨others, rfl, ended, more, rfl, further⟩
        refine ⟨word ++ .mark .comma :: others, by simp, ended, element :: more, by simp,
          .inr ?_⟩
        refine Series.intro (Element.intro derived) ?_
        rcases further with ⟨rfl, rfl⟩ | series
        · exact .trailing rfl
        · exact .of_series series
      · refine .look (.passMark_of_ne Mark.noConfusion separated) ?_
        exact .pure ⟨word, rfl, ended, [element], rfl, .inr (.single (.intro derived))⟩

omit place in
/-- An array is read with its brackets. -/
theorem array_takes (place : Place steps (.mark .openBracket :: rest)) :
    Consumes (array steps nested) (.mark .openBracket :: rest) fun word expr =>
      Atom inner word expr.bare := by
  have restPlace := place.tail nofun
  refine .go (.advance nofun restPlace.ended.ne_nil) fun start ⟨_, loose⟩ => ?_
  refine .bind (elementsFrom_takes sound restPlace (loose rfl)) ?_
  rintro after _ ⟨word, rfl, ended, elements, rfl, derived⟩
  refine .bind (closeBracket_takes ended Mark.noConfusion Mark.noConfusion) ?_
  rintro _ _ ⟨rfl, goesOn⟩
  refine .span fun _ => ?_
  refine .pure ⟨.mark .openBracket :: (word ++ [Terminal.mark .closeBracket]), by simp, goesOn, ?_⟩
  rcases derived with ⟨rfl, rfl⟩ | series
  · exact .emptyArray
  · exact .array series

omit place in
/-- A lone name in front of a colon is a key that stands for itself. -/
theorem namedEntry_takes
    {name : Text}
    (place : Place steps (.name name :: .mark .colon :: rest)) :
    Consumes (namedEntry nested name) (.name name :: .mark .colon :: rest) fun word entry =>
      MapEntry inner word [entry.bare] := by
  have colonPlace := place.tail nofun
  have valuePlace := colonPlace.tail nofun
  refine .go (.advance nofun colonPlace.ended.ne_nil) fun start _ => ?_
  refine .go (.requireMark Mark.noConfusion Mark.noConfusion
    (fun _ => valuePlace.ended.ne_nil) fun _ _ => trivial) fun _ ⟨_, loose⟩ => ?_
  refine .bind (sound.takes valuePlace (loose rfl)) ?_
  rintro _ value ⟨word, rfl, ended, derived⟩
  refine .span fun _ => ?_
  exact .pure ⟨.name name :: .mark .colon :: word, rfl, ended, .named derived⟩

omit place in
/-- An expression that is no lone name is a key in front of a colon. -/
theorem entryAfter_takes
    {key : Expr} {keyWord : Word}
    (place : Place steps (.mark .colon :: rest))
    (noName : ∀ name, keyWord ≠ [.name name])
    (keyDerived : inner .expression keyWord key.bare) :
    Consumes (entryAfter nested start key) (.mark .colon :: rest) fun word entry =>
      MapEntry inner (keyWord ++ word) [entry.bare] := by
  have valuePlace := place.tail nofun
  refine .bind (.advance nofun valuePlace.ended.ne_nil) ?_
  rintro _ _ ⟨rfl, -, loose⟩
  refine .bind (sound.takes valuePlace (loose rfl)) ?_
  rintro _ value ⟨word, rfl, ended, derived⟩
  refine .span fun _ => ?_
  exact .pure ⟨.mark .colon :: word, rfl, ended, .keyed noName keyDerived derived⟩

omit sound place in
/-- A word before a colon is no lone name if its first name was not taken as a key. -/
theorem ne_name_of_keyName?
    {terminal : Terminal} {word after : Word}
    (noKey : ∀ name, (none : Option Text) = some name ↔
      terminal = .name name ∧ rest.head? = some (.mark .colon))
    (split : terminal :: rest = word ++ .mark .colon :: after)
    (name : Text) :
    word ≠ [.name name] := by
  rintro rfl
  obtain ⟨rfl, rfl⟩ := List.cons.inj split
  cases (noKey name).mpr ⟨rfl, rfl⟩

/-- Further entries of a map are read behind commas. -/
theorem entriesFrom_takes {entries : List Entry} :
    Consumes (entriesFrom nested rounds entries) before fun word all =>
      ∃ more, all = entries ++ more ∧
        Rest .comma true (MapEntry inner) word (Entry.bareAll more) := by
  induction rounds generalizing before entries with
  | zero => exact .pure ⟨[], rfl, place.ended, [], by simp, .done⟩
  | succ rounds hypothesis =>
    obtain ⟨terminal, rest, rfl⟩ := place.exists_cons
    by_cases separated : terminal = .mark .comma
    · subst separated
      have restPlace := place.tail nofun
      refine .pass Mark.noConfusion Mark.noConfusion restPlace.ended.ne_nil fun loose => ?_
      obtain ⟨terminal, rest, rfl⟩ := restPlace.exists_cons
      refine .look (.atMark Mark.noConfusion) ?_
      split
      · exact .pure ⟨[.mark .comma], rfl, restPlace.ended, [], by simp, .trailing rfl⟩
      · refine .bind .keyName? ?_
        rintro _ found ⟨rfl, isKey⟩
        cases found with
        | some name =>
          obtain ⟨rfl, followed⟩ := (isKey name).mp rfl
          obtain ⟨rest, rfl⟩ : ∃ more, rest = .mark .colon :: more :=
            List.head?_eq_some_iff.mp followed
          refine .bind (namedEntry_takes sound restPlace) ?_
          rintro after entry ⟨word, split, ended, derived⟩
          rw [split] at restPlace ⊢
          refine (hypothesis (restPlace.behind ended)).mono ?_
          rintro _ _ ⟨others, rfl, ended, more, rfl, further⟩
          refine ⟨.mark .comma :: (word ++ others), by simp, ended, entry :: more, by simp, ?_⟩
          exact .more derived further
        | none =>
          refine .bind .current ?_
          rintro _ start ⟨rfl, -⟩
          refine .bind (sound.takes restPlace (loose rfl)) ?_
          rintro after key ⟨keyWord, split, ended, keyDerived⟩
          rw [split] at restPlace ⊢
          have afterPlace := restPlace.behind ended
          obtain ⟨terminal, rest, rfl⟩ := afterPlace.exists_cons
          refine .bind (.atMark Mark.noConfusion) ?_
          rintro _ _ ⟨rfl, rfl⟩
          split
          · next isColon =>
              have isTerminal := of_decide_eq_true isColon
              subst isTerminal
              refine .bind (entryAfter_takes sound afterPlace
                (ne_name_of_keyName? isKey split) keyDerived) ?_
              rintro after entry ⟨word, split, ended, derived⟩
              rw [split] at afterPlace ⊢
              refine (hypothesis (afterPlace.behind ended)).mono ?_
              rintro _ _ ⟨others, rfl, ended, more, rfl, further⟩
              refine ⟨.mark .comma :: (keyWord ++ word ++ others), by simp, ended,
                entry :: more, by simp, ?_⟩
              exact .more derived further
          · refine .span fun _ => ?_
            exact .failAt trivial
    · refine .bind (.passMark_of_ne Mark.noConfusion separated) ?_
      rintro _ _ ⟨rfl, rfl⟩
      exact .pure ⟨[], rfl, place.ended, [], by simp, .done⟩

/-- Further elements of a set are read behind commas. -/
theorem membersFrom_takes {members : List Expr} :
    Consumes (membersFrom nested rounds members) before fun word all =>
      ∃ more, all = members ++ more ∧
        Rest .comma true (Element inner) word (Expr.bareAll more) := by
  induction rounds generalizing before members with
  | zero => exact .pure ⟨[], rfl, place.ended, [], by simp, .done⟩
  | succ rounds hypothesis =>
    obtain ⟨terminal, rest, rfl⟩ := place.exists_cons
    by_cases separated : terminal = .mark .comma
    · subst separated
      have restPlace := place.tail nofun
      refine .pass Mark.noConfusion Mark.noConfusion restPlace.ended.ne_nil fun loose => ?_
      obtain ⟨terminal, rest, rfl⟩ := restPlace.exists_cons
      refine .look (.atMark Mark.noConfusion) ?_
      split
      · exact .pure ⟨[.mark .comma], rfl, restPlace.ended, [], by simp, .trailing rfl⟩
      · refine .go .current fun start _ => ?_
        refine .bind (sound.takes restPlace (loose rfl)) ?_
        rintro after member ⟨word, split, ended, derived⟩
        rw [split] at restPlace ⊢
        have afterPlace := restPlace.behind ended
        obtain ⟨terminal, rest, rfl⟩ := afterPlace.exists_cons
        refine .bind (.atMark Mark.noConfusion) ?_
        rintro _ _ ⟨rfl, rfl⟩
        split
        · refine .span fun _ => ?_
          exact .failAt trivial
        · refine (hypothesis afterPlace).mono ?_
          rintro _ _ ⟨others, same, ended, more, rfl, further⟩
          rw [same]
          refine ⟨.mark .comma :: (word ++ others), by simp, ended, member :: more, by simp, ?_⟩
          exact .more (.intro derived) further
    · refine .look (.passMark_of_ne Mark.noConfusion separated) ?_
      exact .pure ⟨[], rfl, place.ended, [], by simp, .done⟩

/-- Behind a first entry, braces are read as a map. -/
theorem mapAfter_takes
    {first : Entry} {firstWord : Word}
    (firstDerived : MapEntry inner firstWord [first.bare]) :
    Consumes (mapAfter steps nested start first) before fun word expr =>
      Atom inner (.mark .openBrace :: (firstWord ++ word)) expr.bare := by
  refine .bind (entriesFrom_takes sound place) ?_
  rintro after _ ⟨word, rfl, ended, entries, rfl, derived⟩
  refine .bind (closeBracket_takes ended Mark.noConfusion Mark.noConfusion) ?_
  rintro _ _ ⟨rfl, goesOn⟩
  refine .span fun _ => ?_
  refine .pure ⟨word ++ [Terminal.mark .closeBrace], by simp, goesOn, ?_⟩
  show Atom inner (_ :: (firstWord ++ (word ++ _))) _
  rw [← List.append_assoc]
  exact .map (.intro firstDerived derived)

omit place in
/-- Braces are read as a map or a set by what stands behind their first expression. -/
theorem braces_takes (place : Place steps (.mark .openBrace :: rest)) :
    Consumes (braces steps nested) (.mark .openBrace :: rest) fun word expr =>
      Atom inner word expr.bare := by
  have restPlace := place.tail nofun
  refine .go (.advance nofun restPlace.ended.ne_nil) fun start ⟨_, loose⟩ => ?_
  obtain ⟨terminal, rest, rfl⟩ := restPlace.exists_cons
  refine .go .current fun token _ => ?_
  split
  · exact .failAt trivial
  · refine .bind .keyName? ?_
    rintro _ found ⟨rfl, isKey⟩
    cases found with
    | some name =>
      obtain ⟨rfl, followed⟩ := (isKey name).mp rfl
      obtain ⟨rest, rfl⟩ : ∃ more, rest = .mark .colon :: more :=
        List.head?_eq_some_iff.mp followed
      refine .bind (namedEntry_takes sound restPlace) ?_
      rintro after entry ⟨word, split, ended, derived⟩
      rw [split] at restPlace ⊢
      refine (mapAfter_takes sound (restPlace.behind ended) derived).mono ?_
      rintro _ _ ⟨others, rfl, ended, derived⟩
      exact ⟨_, by simp, ended, derived⟩
    | none =>
      refine .bind (sound.takes restPlace (loose rfl)) ?_
      rintro after first ⟨firstWord, split, ended, firstDerived⟩
      rw [split] at restPlace ⊢
      have afterPlace := restPlace.behind ended
      obtain ⟨terminal, rest, rfl⟩ := afterPlace.exists_cons
      refine .bind (.atMark Mark.noConfusion) ?_
      rintro _ _ ⟨rfl, rfl⟩
      split
      · next isColon =>
          have isTerminal := of_decide_eq_true isColon
          subst isTerminal
          refine .bind (entryAfter_takes sound afterPlace
            (ne_name_of_keyName? isKey split) firstDerived) ?_
          rintro after entry ⟨word, split, ended, derived⟩
          rw [split] at afterPlace ⊢
          refine (mapAfter_takes sound (afterPlace.behind ended) derived).mono ?_
          rintro _ _ ⟨others, rfl, ended, derived⟩
          exact ⟨_, by simp, ended, derived⟩
      · refine .bind (membersFrom_takes sound afterPlace) ?_
        rintro after _ ⟨word, same, ended, members, rfl, derived⟩
        rw [same]
        refine .bind (closeBracket_takes ended Mark.noConfusion Mark.noConfusion) ?_
        rintro _ _ ⟨rfl, goesOn⟩
        refine .span fun _ => ?_
        exact .pure ⟨.mark .openBrace :: (firstWord ++ word ++ [Terminal.mark .closeBrace]),
          by simp, goesOn, .set (.intro (.intro firstDerived) derived)⟩

omit sound place in
theorem leaf_takes
    {symbol : Symbol} {expr : Expr}
    (place : Place steps (.symbol symbol :: rest))
    (isLeaf : symbol.leaf? = some expr.bare) :
    Consumes (do let _ ← advance; return expr) (.symbol symbol :: rest) fun word value =>
      Atom inner word value.bare := by
  have inside : Terminal.symbol symbol ≠ .mark .endOfInput := by
    rintro ⟨⟩
    cases isLeaf
  have restPlace := place.tail inside
  refine .go (.advance inside restPlace.ended.ne_nil) fun _ _ => ?_
  exact .pure ⟨[.symbol symbol], rfl, restPlace.ended, .leaf isLeaf⟩

/-- An atom is read by its first terminal. -/
theorem atom_takes (loose : Loose before) :
    Consumes (atom steps nested) before fun word expr => Atom inner word expr.bare := by
  obtain ⟨terminal, rest, rfl⟩ := place.exists_cons
  cases terminal with
  | indexBracket => exact (loose rfl).elim
  | symbol symbol =>
    refine .go .current fun token same => ?_
    have same : token.symbol = symbol := same
    rw [same]
    cases symbol with
    | mark mark =>
      have refused : Consumes
          (if mark.closesBracket then failAt (.neverOpened token.lexeme) token.span
            else Reading.expected "expression" : Reading Expr)
          (.mark mark :: rest) fun word expr => Atom inner word expr.bare := by
        split
        · exact .failAt trivial
        · exact .expected fun _ => trivial
      cases mark with
      | openParen => exact grouped_takes sound place
      | openBracket => exact array_takes sound place
      | openBrace => exact braces_takes sound place
      | _ => exact refused
    | _ => exact leaf_takes place rfl

/-! ## Operands -/

/-- Behind an operand, indices are read until none is left. -/
theorem indicesFrom_takes (short : before.length ≤ rounds) {target : Expr} :
    GivesBehind (indicesFrom nested rounds target) before
      (fun after expr => ∃ word, before = word ++ after ∧ Ended after ∧
        Indices inner target.bare word expr.bare ∧ Loose after)
      fun _ => True := by
  induction rounds generalizing before target with
  | zero => exact (place.ended.ne_nil (List.length_eq_zero_iff.mp (Nat.le_zero.mp short))).elim
  | succ rounds hypothesis =>
    obtain ⟨terminal, rest, rfl⟩ := place.exists_cons
    refine indicesFrom_gives
      (fun noIndex =>
        ⟨[], rfl, place.ended, .done, fun same => noIndex (Option.some.inj same)⟩) ?_
    rintro rfl
    have restPlace := place.tail nofun
    refine .go (.advance nofun restPlace.ended.ne_nil) fun start ⟨_, loose⟩ => ?_
    obtain ⟨terminal, rest, rfl⟩ := restPlace.exists_cons
    refine .look (.atMark Mark.noConfusion) ?_
    split
    · exact .expected fun _ => trivial
    · refine .bind (sound.takes restPlace (loose rfl)) ?_
      rintro after key ⟨word, split, ended, derived⟩
      rw [split] at restPlace short ⊢
      have afterPlace := restPlace.behind ended
      obtain ⟨terminal, rest, rfl⟩ := afterPlace.exists_cons
      refine .bind_behind (.closeBracket Mark.noConfusion Mark.noConfusion
        (fun same => (ended.tail (same ▸ nofun)).ne_nil) fun _ _ => trivial)
        (.closeBracket rfl start) ?_ ?_
      · rintro _ _ ⟨rfl, rfl⟩
        exact ended.tail nofun
      · rintro rest _ ⟨rfl, rfl⟩
        have shorter := Nat.le_of_succ_le (length_le_of_cons_append short)
        refine (hypothesis (afterPlace.tail nofun) shorter).mono ?_
        rintro _ _ ⟨others, rfl, ended, further, loose⟩
        exact ⟨.indexBracket :: (word ++ .mark .closeBracket :: others), by simp, ended,
          .more derived further, loose⟩

/-- Indices are read as long as a `[` stands right behind an operand; what is left starts with
none. -/
theorem indexed_takes (loose : Loose before) :
    Gives (indexed steps nested) before
      (fun after expr => ∃ word, before = word ++ after ∧ Ended after ∧
        Indexed inner word expr.bare ∧ Loose after)
      fun _ => True := by
  refine .bind_behind (atom_takes sound place loose) (atom_stops steps nested)
    (fun _ _ ⟨_, _, ended, _⟩ => ended) ?_
  rintro _ target ⟨word, rfl, ended, derived⟩
  have afterPlace := place.behind ended
  refine (indicesFrom_takes sound afterPlace afterPlace.short).mono ?_
  rintro _ _ ⟨others, rfl, ended, further, loose⟩
  exact ⟨word ++ others, by simp, ended, .intro derived further, loose⟩

/-- Arguments are read as long as an atom starts. -/
theorem argumentsFrom_takes (loose : Loose before) {arguments : List Expr} :
    Consumes (argumentsFrom steps nested rounds arguments) before fun word all =>
      ∃ more, all = arguments ++ more ∧ Arguments inner word (Expr.bareAll more) := by
  induction rounds generalizing before arguments with
  | zero => exact .pure ⟨[], rfl, place.ended, [], by simp, .done⟩
  | succ rounds hypothesis =>
    obtain ⟨terminal, rest, rfl⟩ := place.exists_cons
    refine .bind .current ?_
    rintro _ token ⟨rfl, -⟩
    split
    · exact .pure ⟨[], rfl, place.ended, [], by simp, .done⟩
    · refine .go .atEmptyParens fun found _ => ?_
      split
      · exact .failAt trivial
      · refine .bind (indexed_takes sound place loose) ?_
        rintro after argument ⟨word, split, ended, derived, loose⟩
        rw [split] at place ⊢
        refine (hypothesis (place.behind ended) loose).mono ?_
        rintro _ _ ⟨others, rfl, ended, more, rfl, further⟩
        exact ⟨word ++ others, by simp, ended, argument :: more, by simp, .more derived further⟩

/-- A callee is read alone, with empty parentheses or with arguments. -/
theorem application_takes (loose : Loose before) :
    Consumes (application steps nested) before fun word expr =>
      Application inner word expr.bare := by
  refine .bind (indexed_takes sound place loose) ?_
  rintro after callee ⟨word, rfl, ended, derived, loose⟩
  have afterPlace := place.behind ended
  obtain ⟨terminal, rest, rfl⟩ := afterPlace.exists_cons
  refine .bind .atEmptyParens ?_
  rintro _ found ⟨rfl, decides⟩
  split
  · next isFound =>
      obtain ⟨rfl, closes⟩ := decides.mp isFound
      obtain ⟨rest, rfl⟩ : ∃ more, rest = .mark .closeParen :: more :=
        List.head?_eq_some_iff.mp closes
      have endedRest := (ended.tail nofun).tail nofun
      refine .go (.advance nofun nofun) fun _ _ => ?_
      refine .go (.advance nofun endedRest.ne_nil) fun stop _ => ?_
      exact .pure ⟨word ++ [Terminal.mark .openParen, .mark .closeParen], by simp, endedRest,
        .emptyCall derived⟩
  · refine .bind (argumentsFrom_takes sound afterPlace loose) ?_
    rintro _ arguments ⟨others, same, ended, _, rfl, further⟩
    rw [same]
    split
    · next isLast =>
        obtain rfl : arguments = [] := List.getLast?_eq_none_iff.mp isLast
        cases further with
        | done => exact .pure ⟨word, rfl, ended, .alone derived⟩
    · next last isLast =>
        refine .pure ⟨word ++ others, by simp, ended, .call derived further ?_⟩
        cases arguments with
        | nil => cases isLast
        | cons => exact nofun

omit sound place in
/-- A symbol with a precedence is a mark. -/
theorem exists_mark_of_precedence?
    {terminal : Terminal} {precedence : Nat}
    (isOperator : terminal.precedence? = some precedence) :
    ∃ operator, terminal = .mark operator ∧
      (TokenKind.mark operator).precedence? = some precedence := by
  match terminal with
  | .symbol (.mark operator) => exact ⟨operator, rfl, isOperator⟩

/-- Operators are read as long as they bind tightly enough; what is left starts with none that
does. -/
theorem operatorsFrom_takes {least : Nat} (short : before.length ≤ rounds) {left : Expr} :
    Gives (operatorsFrom nested least rounds left) before
      (fun after expr => ∃ word, before = word ++ after ∧ Ended after ∧
        Operators inner least left.bare word expr.bare ∧ BindsLooser least after)
      fun _ => True := by
  induction rounds generalizing before left with
  | zero => exact (place.ended.ne_nil (List.length_eq_zero_iff.mp (Nat.le_zero.mp short))).elim
  | succ rounds hypothesis =>
    obtain ⟨terminal, rest, rfl⟩ := place.exists_cons
    refine .go .current fun token same => ?_
    have sameKind : token.kind = terminal.toSymbol.kind := congrArg Symbol.kind same
    rw [sameKind]
    cases isOperator : terminal.toSymbol.kind.precedence? with
    | none =>
      refine .pure ⟨[], rfl, place.ended, .done, ?_⟩
      rintro _ ⟨⟩ precedence found
      cases isOperator.symm.trans found
    | some precedence =>
      dsimp only
      split
      · next lower =>
          refine .pure ⟨[], rfl, place.ended, .done, ?_⟩
          rintro _ ⟨⟩ precedence found
          obtain rfl := Option.some.inj (isOperator.symm.trans found)
          exact lower
      · next higher =>
          obtain ⟨operator, rfl, isOperator⟩ := exists_mark_of_precedence? isOperator
          have inside : Terminal.mark operator ≠ .mark .endOfInput := by
            rintro ⟨⟩
            cases isOperator
          have noOperand : operator.closesBracket = false := by
            cases operator <;> first | rfl | cases isOperator
          have restPlace := place.tail inside
          refine .go (.advance inside restPlace.ended.ne_nil) fun _ ⟨_, loose⟩ => ?_
          refine .bind (sound (.operand (operandLevel (.mark operator) precedence)) _ restPlace
            (loose noOperand)) ?_
          rintro after right ⟨word, rfl, ended, derived, looser⟩
          have shorter := length_le_of_cons_append short
          refine (hypothesis (restPlace.behind ended) shorter).mono ?_
          rintro after expr ⟨others, rfl, ended, further, last⟩
          refine ⟨.mark operator :: (word ++ others), by simp, ended, ?_, last⟩
          refine .more isOperator (Nat.le_of_not_lt higher) derived ?_ further
          exact (looser _ rfl).of_append

/-- An operand is read with all operators that bind tightly enough. -/
theorem binary_takes (loose : Loose before) {least : Nat} :
    Gives (binary steps nested least) before
      (fun after expr => ∃ word, before = word ++ after ∧ Ended after ∧
        Operand inner least word expr.bare ∧ BindsLooser least after)
      fun _ => True := by
  refine .bind (application_takes sound place loose) ?_
  rintro _ left ⟨word, rfl, ended, derived⟩
  have afterPlace := place.behind ended
  refine (operatorsFrom_takes sound afterPlace afterPlace.short).mono ?_
  rintro _ _ ⟨others, rfl, ended, further, looser⟩
  exact ⟨word ++ others, by simp, ended, .intro derived further, looser⟩

/-! ## Expressions and statements -/

/-- An expression is read as a function if it starts with `fun`. -/
theorem expression_takes (loose : Loose before) :
    Consumes (expression steps nested) before fun word expr => Expression inner word expr.bare := by
  obtain ⟨terminal, rest, rfl⟩ := place.exists_cons
  refine .bind (.atMark Mark.noConfusion) ?_
  rintro _ _ ⟨rfl, rfl⟩
  split
  · next isFunction =>
      have isTerminal := of_decide_eq_true isFunction
      subst isTerminal
      exact function_takes sound place
  · refine (binary_takes sound place loose).mono ?_
    rintro _ _ ⟨word, same, ended, derived, -⟩
    exact ⟨word, same, ended, .operand derived⟩

theorem expressionStatement_takes (loose : Loose before) :
    Consumes (do
      let expr ← expression steps nested
      return [.expression expr.span expr]) before fun word all =>
        Statement inner word (Stmt.bareAll all) := by
  refine .bind (expression_takes sound place loose) ?_
  rintro _ expr ⟨word, rfl, ended, derived⟩
  exact .pure ⟨word, rfl, ended, .expression derived⟩

/-- A statement is read by its first two terminals. -/
theorem statement_takes (loose : Loose before) :
    Consumes (statement steps nested) before fun word all =>
      Statement inner word (Stmt.bareAll all) := by
  obtain ⟨terminal, rest, rfl⟩ := place.exists_cons
  refine .bind .current ?_
  rintro _ token ⟨rfl, same⟩
  split
  · next isLet =>
      have isTerminal := (Terminal.eq_mark_iff Mark.noConfusion).mpr (same.symm.trans isLet)
      subst isTerminal
      exact letStatement_takes sound place
  · next isVar =>
      have isTerminal := (Terminal.eq_mark_iff Mark.noConfusion).mpr (same.symm.trans isVar)
      subst isTerminal
      refine .bind (varStatement_takes sound place) ?_
      rintro _ stmt ⟨word, same, ended, derived⟩
      exact .pure ⟨word, same, ended, derived⟩
  · next name isName =>
      have isTerminal := Terminal.eq_name_iff.mpr (same.symm.trans isName)
      subst isTerminal
      refine .bind (.atNameBefore Mark.noConfusion) ?_
      rintro _ found ⟨rfl, decides⟩
      split
      · next isFound =>
          obtain ⟨rest, rfl⟩ : ∃ more, rest = .mark .assign :: more :=
            List.head?_eq_some_iff.mp (decides.mp isFound).2
          refine .bind (assignment_takes sound place) ?_
          rintro _ stmt ⟨word, same, ended, derived⟩
          exact .pure ⟨word, same, ended, derived⟩
      · exact expressionStatement_takes sound place loose
  · exact expressionStatement_takes sound place loose

/-- Further statements are read behind separators. -/
theorem statementsFrom_takes {statements : List Stmt} :
    Consumes (statementsFrom steps nested rounds statements) before fun word all =>
      ∃ more, all = statements ++ more ∧
        Rest .itemSeparator false (Statement inner) word (Stmt.bareAll more) := by
  induction rounds generalizing before statements with
  | zero => exact .pure ⟨[], rfl, place.ended, [], by simp, .done⟩
  | succ rounds hypothesis =>
    obtain ⟨terminal, rest, rfl⟩ := place.exists_cons
    by_cases separated : terminal = .mark .itemSeparator
    · subst separated
      have restPlace := place.tail nofun
      refine .bind (.passMark_of_eq Mark.noConfusion Mark.noConfusion restPlace.ended.ne_nil) ?_
      rintro _ _ ⟨rfl, rfl, loose⟩
      refine .bind (statement_takes sound restPlace (loose rfl)) ?_
      rintro after stmts ⟨word, rfl, ended, derived⟩
      refine (hypothesis (restPlace.behind ended)).mono ?_
      rintro _ _ ⟨others, rfl, ended, more, rfl, further⟩
      refine ⟨.mark .itemSeparator :: (word ++ others), by simp, ended, stmts ++ more,
        by simp, ?_⟩
      rw [Stmt.bareAll_append]
      exact .more derived further
    · refine .bind (.passMark_of_ne Mark.noConfusion separated) ?_
      rintro _ _ ⟨rfl, rfl⟩
      exact .pure ⟨[], rfl, place.ended, [], by simp, .done⟩

/-- Statements are read up to the mark that ends them. -/
theorem statements_takes
    (loose : Loose before)
    {terminator : Mark}
    (noOpening : terminator ≠ .openBracket) :
    Gives (statements steps nested terminator) before
      (fun after all => ∃ word rest, before = word ++ after ∧ after = .mark terminator :: rest ∧
        Ended after ∧ Statements inner word (Stmt.bareAll all))
      fun _ => True := by
  refine .bind (statement_takes sound place loose) ?_
  rintro _ first ⟨word, rfl, ended, derived⟩
  refine .bind (statementsFrom_takes sound (place.behind ended)) ?_
  rintro after _ ⟨others, rfl, ended, more, rfl, further⟩
  obtain ⟨terminal, rest, rfl⟩ := List.exists_cons_of_ne_nil ended.ne_nil
  refine .bind .current ?_
  rintro _ token ⟨rfl, same⟩
  split
  · next mark isMark =>
      split
      · exact .failAt trivial
      · split
        · next isTerminator =>
            have isTerminal := (Terminal.eq_mark_iff noOpening).mpr
              (same.symm.trans (isMark.trans (congrArg Symbol.mark isTerminator)))
            subst isTerminal
            refine .pure ⟨word ++ others, rest, by simp, rfl, ended, ?_⟩
            rw [Stmt.bareAll_append]
            exact .intro derived further
        · exact .expected fun _ => trivial
  · exact .expected fun _ => trivial

omit place in
theorem block_takes (place : Place steps (.mark .blockStart :: rest)) :
    Consumes (block steps nested) (.mark .blockStart :: rest) fun word expr =>
      PhraseOf inner .body word expr.bare := by
  have restPlace := place.tail nofun
  refine .go (.advance nofun restPlace.ended.ne_nil) fun start ⟨_, loose⟩ => ?_
  refine .bind (statements_takes sound restPlace (loose rfl) Mark.noConfusion) ?_
  rintro _ all ⟨word, rest, rfl, rfl, ended, derived⟩
  have endedRest := ended.tail nofun
  refine .bind (.advance nofun endedRest.ne_nil) ?_
  rintro _ _ ⟨rfl, -⟩
  refine .span fun _ => ?_
  exact .pure ⟨.mark .blockStart :: (word ++ [Terminal.mark .blockEnd]), by simp, endedRest,
    .block derived⟩

omit before place in
/-- The reader of a phrase is sound if the reader of the phrases inside it is. -/
theorem phraseWith_sound : Sound (PhraseOf inner) steps (phraseWith steps nested) := by
  intro form before place loose
  cases form with
  | body =>
    obtain ⟨terminal, rest, rfl⟩ := place.exists_cons
    refine .look (.atMark Mark.noConfusion) ?_
    split
    · next isBlock =>
        have isTerminal := of_decide_eq_true isBlock
        subst isTerminal
        refine (block_takes sound place).mono ?_
        rintro _ _ ⟨word, same, ended, derived⟩
        exact ⟨word, same, ended, derived, nofun⟩
    · refine (expression_takes sound place loose).mono ?_
      rintro _ _ ⟨word, same, ended, derived⟩
      exact ⟨word, same, ended, .body derived, nofun⟩
  | expression =>
    refine (expression_takes sound place loose).mono ?_
    rintro _ _ ⟨word, same, ended, derived⟩
    exact ⟨word, same, ended, .expression derived, nofun⟩
  | operand level =>
    refine (binary_takes sound place loose).mono ?_
    rintro _ _ ⟨word, same, ended, derived, looser⟩
    exact ⟨word, same, ended, .operand derived, fun _ same => Phrase.operand.inj same ▸ looser⟩

end

/-- What a phrase passes is a phrase of the grammar that fits in the nesting room. -/
theorem phrase_sound (steps room : Nat) : Sound (Within room) steps (phrase steps room) := by
  induction room using Nat.strongRecOn with
  | _ room hypothesis =>
    intro form before place loose
    by_cases fits : form.levels ≤ room
    · rw [phrase_of_fits fits]
      have inside := hypothesis _ (Phrase.sub_levels_lt fits)
      refine (phraseWith_sound inside form before place loose).mono ?_
      rintro _ _ ⟨word, same, ended, derived, looser⟩
      exact ⟨word, same, ended, within_iff.mpr ⟨fits, derived⟩, looser⟩
    · -- Without room the reader fails at once, and a failure claims no derivation.
      rw [phrase_of_not_fits fits]
      obtain ⟨terminal, rest, rfl⟩ := place.exists_cons
      refine .go .current fun token _ => ?_
      exact .failAt trivial

end Reading

end Offside
