import Offside.Proofs.Literals.Scanning
import Offside.Proofs.Programs.Reading

namespace Offside

/-!
# The program of a literal

A literal stands on one line, and its brackets are balanced.  So the layout puts no marks
into it and leaves no context open after it.  Its symbols are derived as an expression that
spells the literal, and its text is read as a program of one statement: that expression.
-/

open Grammar

variable {levels : Nat} {literal : Literal}

/-! ## Reading -/

/-- The symbols of parts, with commas between them. -/
def separated : List (List Symbol) → List Symbol
  | [] => []
  | part :: parts => part ++ parts.flatMap (.mark .comma :: ·)

namespace TokenStream

/-- Reading passes `text` in front of `rest` as tokens with the given symbols; the flags say
whether the line has a token before, and whether a sign may start a number before `text` and
after it. -/
def Reads (file : Option Text) (inLine signs : Bool) (text : Text) (symbols : List Symbol)
    (signsAfter : Bool) (rest : Text) : Prop :=
  ∀ start, ∃ tokens indents stop, tokens.map (·.symbol) = symbols ∧
    Passage file ⟨start, 0, inLine, signs⟩ (text ++ rest) tokens indents
      ⟨stop, 0, true, signsAfter⟩ rest

variable {file : Option Text} {rest : Text}

theorem Reads.append
    {inLine signs signsBetween signsAfter : Bool} {first second : Text}
    {firstSymbols secondSymbols : List Symbol}
    (firstReads : Reads file inLine signs first firstSymbols signsBetween (second ++ rest))
    (secondReads : Reads file true signsBetween second secondSymbols signsAfter rest) :
    Reads file inLine signs (first ++ second) (firstSymbols ++ secondSymbols) signsAfter rest := by
  intro start
  obtain ⟨tokens, records, between, rfl, passage⟩ := firstReads start
  obtain ⟨others, further, stop, rfl, onward⟩ := secondReads between
  refine ⟨tokens ++ others, records ++ further, stop, List.map_append, ?_⟩
  rw [List.append_assoc]
  exact passage.trans onward

/-- What is scanned as one token is read as that token. -/
theorem Reads.token
    {inLine signs : Bool} {first : CodePoint} {tail : Text} {symbol : Symbol}
    (scanned : scan signs first (tail ++ rest) = .token symbol (tail.length + 1)) :
    Reads file inLine signs (first :: tail) [symbol] (!symbol.endsOperand) rest :=
  fun _ => ⟨_, _, _, rfl, .token scanned .done⟩

/-- A blank within a line is passed over. -/
theorem Reads.blank (signs : Bool) (rest : Text) :
    Reads file true signs [.scalar ' '] [] signs rest :=
  fun _ => ⟨_, _, _, rfl, .blank rfl .done⟩

theorem Reads.sign
    {char : Char} {mark : Mark}
    (isSign : (char, mark) ∈ literalSigns)
    (inLine signs : Bool)
    (rest : Text) :
    Reads file inLine signs [.scalar char] [.mark mark] (!mark.closesBracket) rest :=
  .token (scan_sign isSign signs rest)

/-- Parts with commas between them are read one after the other. -/
theorem Reads.joined
    {α : Type} {text : α → Text} {symbols : α → List Symbol} {parts : List α}
    (nonempty : parts ≠ [])
    (each : ∀ part ∈ parts, ∀ rest, Stops rest →
      Reads file true true (text part) (symbols part) false rest)
    (stops : Stops rest) :
    Reads file true true (Text.join [.scalar ',', .scalar ' '] (parts.map text))
      (separated (parts.map symbols)) false rest := by
  induction parts with
  | nil => exact (nonempty rfl).elim
  | cons part others hypothesis =>
    have head := each part (List.mem_cons_self ..)
    cases others with
    | nil => simpa [Text.join, separated] using head rest stops
    | cons next others =>
      have tail := hypothesis (List.cons_ne_nil _ _)
        fun other member => each other (List.mem_cons_of_mem _ member)
      have comma : Reads file true false [.scalar ','] [.mark .comma] true _ :=
        .sign (by decide) true false
          (.scalar ' ' :: (Text.join [.scalar ',', .scalar ' ']
            ((next :: others).map text) ++ rest))
      have separator := comma.append (Reads.blank true _)
      have front := (head _ (.cons (by decide))).append separator
      simpa [Text.join, separated] using front.append tail

/-- Parts between brackets are read between the marks of the brackets. -/
theorem Reads.bracketed
    {α : Type} {text : α → Text} {symbols : α → List Symbol} {parts : List α}
    {opening closing : Char} {openMark closeMark : Mark}
    (opens : (opening, openMark) ∈ literalSigns ∧ openMark.closesBracket = false)
    (closes : (closing, closeMark) ∈ literalSigns ∧ closeMark.closesBracket = true)
    (stop : closing ∈ closingSigns)
    (each : ∀ part ∈ parts, ∀ rest, Stops rest →
      Reads file true true (text part) (symbols part) false rest)
    (inLine : Bool)
    (rest : Text) :
    Reads file inLine true (Store.bracketed opening closing (parts.map text))
      (.mark openMark :: (separated (parts.map symbols) ++ [Symbol.mark closeMark]))
      false rest := by
  have openSign (more : Text) :
      Reads file inLine true [.scalar opening] [.mark openMark] true more := by
    have reads : Reads file inLine true [.scalar opening] [.mark openMark] _ more :=
      .sign opens.1 inLine true more
    rwa [opens.2] at reads
  have closeSign (signs : Bool) :
      Reads file true signs [.scalar closing] [.mark closeMark] false rest := by
    have reads : Reads file true signs [.scalar closing] [.mark closeMark] _ rest :=
      .sign closes.1 true signs rest
    rwa [closes.2] at reads
  by_cases nonempty : parts = []
  · subst nonempty
    exact (openSign _).append (closeSign true)
  · have stops : Stops (.scalar closing :: rest) := .cons stop
    have inside := Reads.joined nonempty each stops
    exact (openSign _).append (inside.append (closeSign false))

end TokenStream

namespace Literal

/-- The symbols of a literal. -/
def symbols : Literal → List Symbol
  | .int number => [.int number]
  | .str content => [.string content]
  | .char code => [.char code]
  | .bool truth => [.bool truth]
  | .array items =>
    .mark .openBracket ::
      (separated (items.map fun item => item.symbols) ++ [.mark .closeBracket])
  | .map entries =>
    .mark .openBrace ::
      (separated (entries.map fun entry =>
        entry.1.symbols ++ .mark .colon :: entry.2.symbols) ++ [.mark .closeBrace])
  | .set elements =>
    .mark .openBrace ::
      (separated (elements.map fun element => element.symbols) ++ [.mark .closeBrace])
termination_by literal => sizeOf literal
decreasing_by
  · exact sizeOf_item_lt ‹_›
  · exact sizeOf_fst_lt ‹_›
  · exact sizeOf_snd_lt ‹_›
  · exact sizeOf_element_lt ‹_›

open TokenStream in
/-- The text of a literal is read as its symbols. -/
theorem Proper.reads
    {levels : Nat} {literal : Literal}
    (proper : literal.Proper levels)
    (file : Option Text)
    (inLine : Bool)
    (rest : Text)
    (stops : Stops rest) :
    Reads file inLine true literal.text literal.symbols false rest := by
  induction proper generalizing inLine rest with
  | int least greatest =>
    obtain ⟨first, tail, shape, scanned⟩ := scan_ofInt least greatest stops
    rw [text, symbols, shape]
    exact .token scanned
  | @str levels content =>
    obtain ⟨tail, shape, scanned⟩ := scan_string true content rest
    rw [text, symbols, shape]
    exact .token scanned
  | @char levels code =>
    obtain ⟨tail, shape, scanned⟩ := scan_char true code rest
    rw [text, symbols, shape]
    exact .token scanned
  | @bool levels truth =>
    obtain ⟨first, tail, shape, scanned⟩ := scan_bool true truth stops
    rw [text, symbols, shape]
    exact .token scanned
  | emptyArray =>
    rw [text, symbols]
    refine .bracketed (by decide) (by decide) (by decide) ?_ inLine rest
    exact fun _ member => (List.not_mem_nil member).elim
  | array _ hypothesis =>
    rw [text, symbols]
    refine .bracketed (by decide) (by decide) (by decide) ?_ inLine rest
    exact fun part member => hypothesis part member true
  | map _ _ _ _ nameHypothesis valueHypothesis =>
    rw [text, symbols]
    refine .bracketed (by decide) (by decide) (by decide) ?_ inLine rest
    intro entry member more moreStops
    have colonStops : Stops (.scalar ':' :: .scalar ' ' :: (entry.2.text ++ more)) :=
      .cons (by decide)
    have name := nameHypothesis entry member true _ colonStops
    have value := valueHypothesis entry member true more moreStops
    have colon : Reads file true false [.scalar ':'] [.mark .colon] true _ :=
      .sign (by decide) true false (.scalar ' ' :: (entry.2.text ++ more))
    have separator := colon.append (Reads.blank true _)
    have spelled : (": " : Text) = [.scalar ':', .scalar ' '] := rfl
    simpa [spelled] using (name.append separator).append value
  | set _ _ _ hypothesis =>
    rw [text, symbols]
    refine .bracketed (by decide) (by decide) (by decide) ?_ inLine rest
    exact fun part member => hypothesis part member true

end Literal

/-- An expression is a literal, apart from its spans. -/
inductive Spells : Expr → Literal → Prop where
  | int
      {span : Span} {number : Int} :
      Spells (.int span number) (.int number)
  | str
      {span : Span} {content : Text} :
      Spells (.string span content) (.str content)
  | char
      {span : Span} {code : CodePoint} :
      Spells (.char span code) (.char code)
  | bool
      {span : Span} {truth : Bool} :
      Spells (.bool span truth) (.bool truth)
  | array
      {span : Span} {exprs : List Expr} {literals : List Literal} :
      exprs.length = literals.length →
      (∀ pair ∈ exprs.zip literals, Spells pair.1 pair.2) →
      Spells (.array span exprs) (.array literals)
  | map
      {span : Span} {entries : List Entry} {literals : List (Literal × Literal)} :
      entries.length = literals.length →
      (∀ entrySpan name value literal,
        (Entry.pair entrySpan name value, literal) ∈ entries.zip literals →
          Spells name literal.1) →
      (∀ entrySpan name value literal,
        (Entry.pair entrySpan name value, literal) ∈ entries.zip literals →
          Spells value literal.2) →
      Spells (.map span entries) (.map literals)
  | set
      {span : Span} {exprs : List Expr} {literals : List Literal} :
      exprs.length = literals.length →
      (∀ pair ∈ exprs.zip literals, Spells pair.1 pair.2) →
      Spells (.set span exprs) (.set literals)

/-! ## Derivations -/

theorem Expr.bareAll_eq_map (exprs : List Expr) : Expr.bareAll exprs = exprs.map Expr.bare := by
  induction exprs with
  | nil => rfl
  | cons expr exprs hypothesis => rw [Expr.bareAll, hypothesis, List.map_cons]

theorem Entry.bareAll_eq_map (entries : List Entry) :
    Entry.bareAll entries = entries.map Entry.bare := by
  induction entries with
  | nil => rfl
  | cons entry entries hypothesis => rw [Entry.bareAll, hypothesis, List.map_cons]

theorem mem_zip_map_left
    {α β γ : Type} {lefts : List α} {rights : List β} {pair : α × β}
    (image : α → γ)
    (member : pair ∈ lefts.zip rights) :
    (image pair.1, pair.2) ∈ (lefts.map image).zip rights := by
  rw [List.zip_map_left]
  exact List.mem_map_of_mem member

/-- Whether an expression spells a literal does not depend on its spans. -/
theorem Spells.of_bare {expr : Expr} (spells : Spells expr.bare literal) : Spells expr literal := by
  generalize same : expr.bare = bare at spells
  induction spells generalizing expr with
  | int =>
    cases expr <;> cases same
    exact .int
  | str =>
    cases expr <;> cases same
    exact .str
  | char =>
    cases expr <;> cases same
    exact .char
  | bool =>
    cases expr <;> cases same
    exact .bool
  | array sizes _ hypothesis =>
    cases expr <;> cases same
    rw [Expr.bareAll_eq_map] at sizes hypothesis
    exact .array (List.length_map _ ▸ sizes)
      fun pair member => hypothesis _ (mem_zip_map_left Expr.bare member) rfl
  | map sizes _ _ nameHypothesis valueHypothesis =>
    cases expr <;> cases same
    rw [Entry.bareAll_eq_map] at sizes nameHypothesis valueHypothesis
    refine .map (List.length_map _ ▸ sizes) ?_ ?_
    · intro span name value literal member
      exact nameHypothesis _ _ _ _ (mem_zip_map_left Entry.bare member) rfl
    · intro span name value literal member
      exact valueHypothesis _ _ _ _ (mem_zip_map_left Entry.bare member) rfl
  | set sizes _ hypothesis =>
    cases expr <;> cases same
    rw [Expr.bareAll_eq_map] at sizes hypothesis
    exact .set (List.length_map _ ▸ sizes)
      fun pair member => hypothesis _ (mem_zip_map_left Expr.bare member) rfl

/-- A map entry spells the literals of its name and its value. -/
def SpellsEntry (entry : Entry) (literal : Literal × Literal) : Prop :=
  ∃ span name value, entry = .pair span name value ∧
    Spells name literal.1 ∧ Spells value literal.2

theorem Spells.of_entries
    {span : Span} {entries : List Entry} {literals : List (Literal × Literal)}
    (all : List.Forall₂ SpellsEntry entries literals) :
    Spells (.map span entries) (.map literals) := by
  obtain ⟨sizes, each⟩ := List.forall₂_iff_zip.mp all
  refine .map sizes ?_ ?_
  · intro entrySpan name value literal member
    obtain ⟨_, _, _, same, spellsName, _⟩ := each member
    cases same
    exact spellsName
  · intro entrySpan name value literal member
    obtain ⟨_, _, _, same, _, spellsValue⟩ := each member
    cases same
    exact spellsValue

theorem exists_forall₂
    {α β : Type} {related : α → β → Prop} {rights : List β}
    (each : ∀ right ∈ rights, ∃ left, related left right) :
    ∃ lefts, List.Forall₂ related lefts rights := by
  induction rights with
  | nil => exact ⟨[], .nil⟩
  | cons right rights hypothesis =>
    obtain ⟨left, first⟩ := each right List.mem_cons_self
    obtain ⟨lefts, others⟩ := hypothesis fun other member =>
      each other (List.mem_cons_of_mem _ member)
    exact ⟨left :: lefts, .cons first others⟩

/-- Parts with commas between them are a series of what each of them is. -/
theorem Grammar.series_separated
    {α β : Type} {item : Word → List α → Prop} {symbols : β → List Symbol}
    {trees : List α} {parts : List β}
    (each : List.Forall₂ (fun tree part => item ((symbols part).map .symbol) [tree]) trees parts)
    (nonempty : parts ≠ []) :
    Series .comma true item ((separated (parts.map symbols)).map .symbol) trees := by
  cases each with
  | nil => exact (nonempty rfl).elim
  | @cons tree part trees parts first others =>
    have rest : Rest .comma true item
        (((parts.map symbols).flatMap (.mark .comma :: ·)).map .symbol) trees := by
      clear nonempty
      induction others with
      | nil => exact .done
      | cons next _ hypothesis => simpa using Rest.more next hypothesis
    simpa [separated] using Series.intro first rest

theorem Literal.map_symbols_ne_name (literal : Literal) (name : Text) :
    literal.symbols.map Terminal.symbol ≠ [.name name] := by
  cases literal <;> rw [symbols] <;> simp

/-- The symbols of a literal are derived as an atom that spells it. -/
theorem Literal.Proper.derived (proper : literal.Proper levels) :
    ∃ expr, Spells expr literal ∧
      Atom (Within levels) (literal.symbols.map .symbol) expr := by
  induction proper with
  | int | str | char | bool =>
    rw [symbols]
    exact ⟨_, by constructor, .leaf rfl⟩
  | emptyArray =>
    rw [symbols]
    exact ⟨_, .array rfl fun _ member => (List.not_mem_nil member).elim, .emptyArray⟩
  | @array levels items _ hypothesis =>
    obtain ⟨exprs, each⟩ := exists_forall₂ hypothesis
    obtain ⟨sizes, pairs⟩ := List.forall₂_iff_zip.mp each
    refine ⟨.array .nowhere exprs, .array sizes fun pair member => (pairs member).1, ?_⟩
    rw [symbols]
    by_cases nonempty : items = []
    · subst nonempty
      cases each
      exact .emptyArray
    · have series : Series .comma true (Element (Within (levels + 6))) _ exprs :=
        series_separated (each.imp fun _ _ both => .intro (.expression both.2.expression)) nonempty
      simpa using Atom.array series
  | @map levels entries nonempty _ _ _ nameHypothesis valueHypothesis =>
    have each : ∀ literal ∈ entries, ∃ entry, SpellsEntry entry literal ∧
        Grammar.MapEntry (Within (levels + 6))
          ((literal.1.symbols ++ .mark .colon :: literal.2.symbols).map .symbol) [entry] := by
      intro literal member
      obtain ⟨name, spellsName, nameAtom⟩ := nameHypothesis literal member
      obtain ⟨value, spellsValue, valueAtom⟩ := valueHypothesis literal member
      refine ⟨_, ⟨.nowhere, name, value, rfl, spellsName, spellsValue⟩, ?_⟩
      rw [List.map_append]
      exact .keyed literal.1.map_symbols_ne_name (.expression nameAtom.expression)
        (.expression valueAtom.expression)
    obtain ⟨read, pairs⟩ := exists_forall₂ each
    refine ⟨.map .nowhere read, .of_entries (pairs.imp fun _ _ both => both.1), ?_⟩
    have series := series_separated (pairs.imp fun _ _ both => both.2) nonempty
    rw [symbols]
    simpa using Atom.map series
  | @set levels elements nonempty _ _ hypothesis =>
    obtain ⟨exprs, each⟩ := exists_forall₂ hypothesis
    obtain ⟨sizes, pairs⟩ := List.forall₂_iff_zip.mp each
    refine ⟨.set .nowhere exprs, .set sizes fun pair member => (pairs member).1, ?_⟩
    have series : Series .comma true (Element (Within (levels + 6))) _ exprs :=
      series_separated (each.imp fun _ _ both => .intro (.expression both.2.expression)) nonempty
    rw [symbols]
    simpa using Atom.set series

/-! ## Layout -/

namespace Layout

/-- What a symbol of a line leaves behind it: whether it ends an operand, and how many brackets
are open.  A line holds no index and closes no bracket that it has not opened. -/
def lineAfter (place : Bool × Nat) (symbol : Symbol) : Option (Bool × Nat) :=
  if symbol = .mark .newline ∨ symbol = .mark .endOfInput ∨
      place.1 = true ∧ symbol = .mark .openBracket then none
  else (depthAfter place.2 symbol).map (symbol.endsOperand, ·)

theorem lineAfter_eq_some
    {operand : Bool} {depth : Nat} {symbol : Symbol} {place : Bool × Nat}
    (goesOn : lineAfter (operand, depth) symbol = some place) :
    symbol ≠ .mark .newline ∧ symbol ≠ .mark .endOfInput ∧
      ¬ (operand = true ∧ symbol = .mark .openBracket) ∧
      ∃ after, depthAfter depth symbol = some after ∧ place = (symbol.endsOperand, after) := by
  unfold lineAfter at goesOn
  split at goesOn
  · cases goesOn
  · next noEnd =>
      obtain ⟨after, counts, same⟩ := Option.map_eq_some_iff.mp goesOn
      exact ⟨fun isNewline => noEnd (.inl isNewline), fun isEnd => noEnd (.inr (.inl isEnd)),
        fun isIndex => noEnd (.inr (.inr isIndex)), after, counts, same.symm⟩

theorem passBracket_of_depthAfter
    {depth after : Nat} {token : Token}
    (counts : depthAfter depth token.symbol = some after)
    (program : Nat) :
    passBracket ⟨program, List.replicate depth .bracket⟩ token =
      ([], ⟨program, List.replicate after .bracket⟩) := by
  unfold passBracket
  cases shape : token.symbol with
  | mark mark =>
    simp only [shape, depthAfter] at counts
    by_cases opens : mark.opensBracket = true
    · rw [if_pos opens] at counts
      cases counts
      exact if_pos opens
    by_cases closes : mark.closesBracket = true
    · rw [if_neg opens, if_pos closes] at counts
      cases depth <;> cases counts
      exact (if_neg opens).trans (if_pos closes)
    · rw [if_neg opens, if_neg closes] at counts
      cases counts
      exact (if_neg opens).trans (if_neg closes)
  | _ =>
    rw [shape] at counts
    cases counts
    rfl

variable {tokens : List Token} {operand : Bool} {depth : Nat} {place : Bool × Nat}

/-- The layout leaves a line as it is. -/
theorem run_of_line
    {indents : Indents} {state : State} {token : Token} {program : Nat}
    (arrives : arrive indents state token =
      some ([], ⟨program, List.replicate depth .bracket⟩))
    (line : ((token :: tokens).map (·.symbol)).foldlM lineAfter (operand, depth) = some place) :
    ∃ last, Run indents state (token :: tokens) (token :: tokens)
      ⟨some ⟨program, List.replicate place.2 .bracket⟩, last, false⟩ := by
  induction tokens generalizing state token operand depth with
  | nil =>
    obtain ⟨_, goesOn, later⟩ := Option.bind_eq_some_iff.mp line
    obtain ⟨noNewline, noEnd, -, after, counts, rfl⟩ := lineAfter_eq_some goesOn
    cases later
    exact ⟨_, .kept noNewline noEnd arrives (passBracket_of_depthAfter counts program) .done⟩
  | cons next tokens hypothesis =>
    obtain ⟨_, goesOn, later⟩ := Option.bind_eq_some_iff.mp line
    obtain ⟨noNewline, noEnd, -, after, counts, rfl⟩ := lineAfter_eq_some goesOn
    have stays : arrive indents ⟨some ⟨program, List.replicate after .bracket⟩,
        some token.symbol, false⟩ next = some ([], ⟨program, List.replicate after .bracket⟩) := rfl
    obtain ⟨last, run⟩ := hypothesis stays later
    exact ⟨last, .kept noNewline noEnd arrives (passBracket_of_depthAfter counts program) run⟩

theorem terminalsAfter_of_line
    (line : (tokens.map (·.symbol)).foldlM lineAfter (operand, depth) = some place)
    (before : Option Token)
    (behind : before.any (·.symbol.endsOperand) = operand) :
    terminalsAfter before tokens = (tokens.map (·.symbol)).map .symbol := by
  induction tokens generalizing operand depth before with
  | nil => rfl
  | cons token tokens hypothesis =>
    obtain ⟨next, goesOn, later⟩ := Option.bind_eq_some_iff.mp line
    obtain ⟨-, -, noIndex, after, counts, rfl⟩ := lineAfter_eq_some goesOn
    have plain : Terminal.ofToken before token = .symbol token.symbol := by
      refine if_neg fun isIndex => noIndex ?_
      obtain ⟨isBracket, ends⟩ := Bool.and_eq_true_iff.mp isIndex
      cases before with
      | none => cases ends
      | some last =>
        exact ⟨behind ▸ (Bool.and_eq_true_iff.mp ends).1, of_decide_eq_true isBracket⟩
    rw [terminalsAfter, plain, hypothesis later (some token) rfl]
    rfl

/-- Parts with commas between them are a line if each of them is one. -/
theorem line_separated
    {parts : List (List Symbol)}
    (each : ∀ part ∈ parts, part.foldlM lineAfter (false, depth) = some (true, depth)) :
    ∃ operand, (separated parts).foldlM lineAfter (false, depth) = some (operand, depth) := by
  cases parts with
  | nil => exact ⟨false, rfl⟩
  | cons first others =>
    obtain ⟨here, later⟩ := List.forall_mem_cons.mp each
    refine ⟨true, ?_⟩
    rw [separated, List.foldlM_append, here]
    clear each here
    induction others with
    | nil => rfl
    | cons other others hypothesis =>
      obtain ⟨next, others⟩ := List.forall_mem_cons.mp later
      have comma : lineAfter (true, depth) (.mark .comma) = some (false, depth) := rfl
      rw [List.flatMap_cons, Option.bind_eq_bind, Option.bind_some, List.cons_append,
        List.foldlM_cons, comma, Option.bind_eq_bind, Option.bind_some, List.foldlM_append, next]
      exact hypothesis others

theorem line_bracketed
    {openMark closeMark : Mark}
    (marks : openMark = .openBracket ∧ closeMark = .closeBracket ∨
      openMark = .openBrace ∧ closeMark = .closeBrace)
    {parts : List (List Symbol)}
    (each : ∀ part ∈ parts, ∀ depth, part.foldlM lineAfter (false, depth) = some (true, depth))
    (depth : Nat) :
    (.mark openMark :: (separated parts ++ [Symbol.mark closeMark])).foldlM lineAfter
      (false, depth) = some (true, depth) := by
  have opens : lineAfter (false, depth) (.mark openMark) = some (false, depth + 1) := by
    rcases marks with ⟨rfl, rfl⟩ | ⟨rfl, rfl⟩ <;> rfl
  have closes (operand : Bool) :
      lineAfter (operand, depth + 1) (.mark closeMark) = some (true, depth) := by
    rcases marks with ⟨rfl, rfl⟩ | ⟨rfl, rfl⟩ <;> cases operand <;> rfl
  obtain ⟨operand, inside⟩ := line_separated fun part member => each part member (depth + 1)
  rw [List.foldlM_cons, opens, Option.bind_eq_bind, Option.bind_some, List.foldlM_append, inside,
    Option.bind_eq_bind, Option.bind_some, List.foldlM_cons, closes]
  rfl

end Layout

/-- A literal is a line that ends in an operand, with all its brackets closed. -/
theorem Literal.Proper.line (proper : literal.Proper levels) (depth : Nat) :
    literal.symbols.foldlM Layout.lineAfter (false, depth) = some (true, depth) := by
  induction proper generalizing depth with
  | int | str | char | bool =>
    rw [symbols]
    rfl
  | emptyArray =>
    rw [symbols]
    exact Layout.line_bracketed (.inl ⟨rfl, rfl⟩)
      (fun _ member => (List.not_mem_nil member).elim) depth
  | array _ hypothesis =>
    rw [symbols]
    refine Layout.line_bracketed (.inl ⟨rfl, rfl⟩) ?_ depth
    intro part member
    obtain ⟨item, inItems, rfl⟩ := List.mem_map.mp member
    exact hypothesis item inItems
  | map _ _ _ _ nameHypothesis valueHypothesis =>
    rw [symbols]
    refine Layout.line_bracketed (.inr ⟨rfl, rfl⟩) ?_ depth
    intro part member inner
    obtain ⟨entry, inEntries, rfl⟩ := List.mem_map.mp member
    rw [List.foldlM_append, nameHypothesis entry inEntries]
    exact valueHypothesis entry inEntries inner
  | set _ _ _ hypothesis =>
    rw [symbols]
    refine Layout.line_bracketed (.inr ⟨rfl, rfl⟩) ?_ depth
    intro part member
    obtain ⟨element, inElements, rfl⟩ := List.mem_map.mp member
    exact hypothesis element inElements

theorem Stmt.eq_expression_of_bareAll
    {stmts : List Stmt} {bare : Expr}
    (same : Stmt.bareAll stmts = [.expression .nowhere bare]) :
    ∃ span expr, stmts = [.expression span expr] ∧ expr.bare = bare := by
  match stmts with
  | [.expression span expr] =>
    cases same
    exact ⟨span, expr, rfl, rfl⟩

/-- The text of a literal is the program of an expression that spells it. -/
theorem Literal.Proper.ofSource_text
    (proper : literal.Proper levels)
    (fits : levels ≤ nestingRoom)
    (file : Option Text) :
    ∃ program span expr, Program.ofSource file literal.text = .ok program ∧
      program.statements = [.expression span expr] ∧ Spells expr literal := by
  obtain ⟨tokens, records, stop, shape, passage⟩ := proper.reads file false [] .nil .origin
  rw [List.append_nil] at passage
  have line := proper.line 0
  rw [← shape] at line
  cases tokens with
  | nil => cases line
  | cons token tokens =>
    obtain ⟨last, run⟩ : ∃ last, Layout.Run [] .initial (token :: tokens) (token :: tokens)
        ⟨some ⟨Layout.indentOf [] token, []⟩, last, false⟩ :=
      Layout.run_of_line rfl line
    obtain ⟨tree, spells, atom⟩ := proper.derived
    have derived : Statements (Within levels)
        (terminals (token :: tokens) ++ (Layout.closeAll []).map .mark)
        [.expression .nowhere tree] := by
      rw [terminals, Layout.terminalsAfter_of_line line none rfl, shape]
      exact (List.append_nil _).symm ▸ .single (.expression atom.expression)
    rcases Program.ofSource_of_run passage run rfl derived with
      ⟨program, read, bare⟩ | ⟨tooDeep, -⟩
    · obtain ⟨span, expr, shape, rfl⟩ := Stmt.eq_expression_of_bareAll bare
      exact ⟨program, span, expr, read, shape, spells.of_bare⟩
    · exact absurd fits (Nat.not_le.mpr tooDeep)

end Offside
