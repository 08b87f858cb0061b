import Offside.Proofs.Programs.Reading

namespace Offside

/-!
# The marks of the layout are nested

The layout inserts marks of block structure and leaves out newlines; the other tokens
stay.  Every block that it starts it also ends, whatever the brackets do: a closing bracket
without an opening one ends nothing, and brackets that stay open are given up at the end
of input.  If the brackets of the input are balanced, blocks and brackets are nested in
each other.

The proofs follow the open contexts.  `Settles` says how a word of symbols opens and closes
delimiters of some kinds; the layout keeps the delimiters of the kinds that are looked at
in step with its contexts.
-/

/-- Whether a symbol stands for block structure. -/
def Symbol.isLayout : Symbol → Bool
  | .mark fixed => fixed.isLayout
  | _ => false

namespace Layout

variable {symbol : Symbol} {inner : List Context} {marks : List Mark} {stack : Stack}
  {token : Token} {indents : Indents}

/-- A pair of symbols that encloses a part of a word: the marks of a block, or brackets of
any shape. -/
inductive Delimiter where
  | block
  | bracket
deriving Repr, DecidableEq

namespace Delimiter

/-- Whether a symbol opens a delimiter. -/
def opens : Delimiter → Symbol → Bool
  | .block, .mark .blockStart => true
  | .bracket, .mark mark => mark.opensBracket
  | _, _ => false

/-- Whether a symbol closes a delimiter. -/
def closes : Delimiter → Symbol → Bool
  | .block, .mark .blockEnd => true
  | .bracket, .mark mark => mark.closesBracket
  | _, _ => false

/-- A word closes a delimiter as often as it opens it, and no part from its start closes it
more often. -/
structure Balances (delimiter : Delimiter) (word : List Symbol) : Prop where
  ahead : ∀ front, front <+: word →
    front.countP delimiter.closes ≤ front.countP delimiter.opens
  settled : word.countP delimiter.closes = word.countP delimiter.opens

/-- It is enough to look at the parts of each length. -/
theorem balances_iff_take {delimiter : Delimiter} {word : List Symbol} :
    delimiter.Balances word ↔
      (∀ size ≤ word.length,
        (word.take size).countP delimiter.closes ≤ (word.take size).countP delimiter.opens) ∧
      word.countP delimiter.closes = word.countP delimiter.opens := by
  constructor
  · rintro ⟨ahead, settled⟩
    exact ⟨fun size _ => ahead _ (List.take_prefix size word), settled⟩
  · rintro ⟨ahead, settled⟩
    refine ⟨fun front isFront => ?_, settled⟩
    rw [List.prefix_iff_eq_take.mp isFront]
    exact ahead front.length isFront.length_le

instance (delimiter : Delimiter) (word : List Symbol) : Decidable (delimiter.Balances word) :=
  decidable_of_iff _ balances_iff_take.symm

theorem closes_of_opens {delimiter : Delimiter} (opens : delimiter.opens symbol = true) :
    delimiter.closes symbol = false := by
  cases symbol with
  | mark mark => cases delimiter <;> cases mark <;> first | rfl | cases opens
  | _ => cases delimiter <;> rfl

theorem opens_of_closes {delimiter : Delimiter} (closes : delimiter.closes symbol = true) :
    delimiter.opens symbol = false := by
  cases opens : delimiter.opens symbol with
  | false => rfl
  | true => exact closes.symm.trans (closes_of_opens opens)

/-- Only marks of block structure delimit blocks. -/
theorem block_not_layout (noLayout : symbol.isLayout = false) :
    block.opens symbol = false ∧ block.closes symbol = false := by
  cases symbol with
  | mark mark => cases mark <;> first | exact ⟨rfl, rfl⟩ | cases noLayout
  | _ => exact ⟨rfl, rfl⟩

end Delimiter

/-- A symbol delimits nothing of some kinds. -/
def Neutral (kinds : List Delimiter) (symbol : Symbol) : Prop :=
  ∀ delimiter ∈ kinds, delimiter.opens symbol = false ∧ delimiter.closes symbol = false

/-- A word in which blocks and brackets are nested. -/
inductive Nested : List Symbol → Prop where
  | nil :
      Nested []
  | neutral
      {symbol : Symbol} {rest : List Symbol} :
      Neutral [.block, .bracket] symbol →
      Nested rest →
      Nested (symbol :: rest)
  | enclosed
      {delimiter : Delimiter} {opening closing : Symbol} {inside rest : List Symbol} :
      delimiter.opens opening = true →
      delimiter.closes closing = true →
      Nested inside →
      Nested rest →
      Nested (opening :: (inside ++ closing :: rest))

/-- A word takes the open delimiters of some kinds, innermost first, to others: each symbol
opens a delimiter, closes the innermost one or does neither. -/
inductive Settles (kinds : List Delimiter) :
    List Delimiter → List Symbol → List Delimiter → Prop where
  | done
      {pending : List Delimiter} :
      Settles kinds pending [] pending
  | neutral
      {pending last : List Delimiter} {symbol : Symbol} {rest : List Symbol} :
      Neutral kinds symbol →
      Settles kinds pending rest last →
      Settles kinds pending (symbol :: rest) last
  | opening
      {delimiter : Delimiter} {pending last : List Delimiter} {symbol : Symbol}
      {rest : List Symbol} :
      delimiter ∈ kinds →
      delimiter.opens symbol = true →
      Settles kinds (delimiter :: pending) rest last →
      Settles kinds pending (symbol :: rest) last
  | closing
      {delimiter : Delimiter} {pending last : List Delimiter} {symbol : Symbol}
      {rest : List Symbol} :
      delimiter ∈ kinds →
      delimiter.closes symbol = true →
      Settles kinds pending rest last →
      Settles kinds (delimiter :: pending) (symbol :: rest) last

namespace Settles

variable {kinds pending between last : List Delimiter} {word more : List Symbol}

theorem append
    (first : Settles kinds pending word between)
    (second : Settles kinds between more last) :
    Settles kinds pending (word ++ more) last := by
  induction first with
  | done => exact second
  | neutral isNeutral _ hypothesis =>
    exact .neutral isNeutral (hypothesis second)
  | opening member opens _ hypothesis =>
    exact .opening member opens (hypothesis second)
  | closing member closes _ hypothesis =>
    exact .closing member closes (hypothesis second)

/-- Counting the delimiters of one kind that a word opens and closes. -/
theorem counts {delimiter : Delimiter} (settles : Settles [delimiter] pending word last) :
    (∀ front, front <+: word →
        front.countP delimiter.closes ≤ pending.length + front.countP delimiter.opens) ∧
      pending.length + word.countP delimiter.opens =
        last.length + word.countP delimiter.closes := by
  induction settles with
  | done =>
    refine ⟨fun front isFront => ?_, by simp⟩
    rw [List.prefix_nil.mp isFront]
    exact Nat.zero_le _
  | neutral isNeutral _ hypothesis =>
    obtain ⟨noOpening, noClosing⟩ := isNeutral delimiter List.mem_cons_self
    obtain ⟨ahead, settled⟩ := hypothesis
    refine ⟨fun front isFront => ?_, by simpa [noOpening, noClosing] using settled⟩
    rcases List.prefix_cons_iff.mp isFront with rfl | ⟨tail, rfl, isTail⟩
    · exact Nat.zero_le _
    · simpa [noOpening, noClosing] using ahead tail isTail
  | opening member opens _ hypothesis =>
    cases List.mem_singleton.mp member
    have noClosing := Delimiter.closes_of_opens opens
    obtain ⟨ahead, settled⟩ := hypothesis
    constructor
    · intro front isFront
      rcases List.prefix_cons_iff.mp isFront with rfl | ⟨tail, rfl, isTail⟩
      · exact Nat.zero_le _
      · have behind := ahead tail isTail
        simp only [List.countP_cons, opens, noClosing, List.length_cons, if_true,
          Bool.false_eq_true, if_false] at behind ⊢
        omega
    · simp only [List.countP_cons, opens, noClosing, List.length_cons, if_true,
        Bool.false_eq_true, if_false] at settled ⊢
      omega
  | closing member closes _ hypothesis =>
    cases List.mem_singleton.mp member
    have noOpening := Delimiter.opens_of_closes closes
    obtain ⟨ahead, settled⟩ := hypothesis
    constructor
    · intro front isFront
      rcases List.prefix_cons_iff.mp isFront with rfl | ⟨tail, rfl, isTail⟩
      · exact Nat.zero_le _
      · have behind := ahead tail isTail
        simp only [List.countP_cons, closes, noOpening, List.length_cons, if_true,
          Bool.false_eq_true, if_false]
        omega
    · simp only [List.countP_cons, closes, noOpening, List.length_cons, if_true,
        Bool.false_eq_true, if_false]
      omega

/-- A word that leaves no delimiter of a kind open is balanced in it. -/
theorem balances {delimiter : Delimiter} (settles : Settles [delimiter] [] word []) :
    delimiter.Balances word := by
  obtain ⟨ahead, settled⟩ := settles.counts
  refine ⟨fun front isFront => ?_, ?_⟩
  · simpa using ahead front isFront
  · simpa using settled.symm

end Settles

/-- A word closes the pending delimiters from the innermost one on; in front of each closing
symbol, and at the end, stands a nested word. -/
def Closes : List Delimiter → List Symbol → Prop
  | [], word => Nested word
  | delimiter :: outer, word =>
    ∃ inside closing rest, word = inside ++ closing :: rest ∧
      delimiter.closes closing = true ∧ Nested inside ∧ Closes outer rest

/-- What goes in front of every nested word goes in front of a word that closes
delimiters. -/
theorem Closes.extend
    {pending : List Delimiter} {word : List Symbol}
    (front : List Symbol)
    (nests : ∀ inside, Nested inside → Nested (front ++ inside))
    (closes : Closes pending word) :
    Closes pending (front ++ word) := by
  cases pending with
  | nil => exact nests word closes
  | cons delimiter outer =>
    obtain ⟨inside, closing, rest, rfl, closer, nested, later⟩ := closes
    exact ⟨front ++ inside, closing, rest, by simp, closer, nests inside nested, later⟩

theorem Settles.closes
    {pending last : List Delimiter} {word : List Symbol}
    (settles : Settles [.block, .bracket] pending word last)
    (settled : last = []) :
    Closes pending word := by
  induction settles with
  | done =>
    subst settled
    exact .nil
  | @neutral _ _ symbol _ isNeutral _ hypothesis =>
    exact (hypothesis settled).extend [symbol] fun _ nested =>
      .neutral isNeutral nested
  | @opening delimiter _ _ symbol _ _ opens _ hypothesis =>
    obtain ⟨inside, closing, rest, rfl, closer, nested, later⟩ := hypothesis settled
    have enclosed := later.extend (symbol :: (inside ++ [closing])) fun _ behind => by
      simpa using Nested.enclosed opens closer nested behind
    simpa using enclosed
  | @closing _ _ _ symbol rest _ closes _ hypothesis =>
    exact ⟨[], symbol, rest, rfl, closes, .nil, hypothesis settled⟩

/-- A word that leaves neither a block nor a bracket open is nested. -/
theorem Settles.nested {word : List Symbol} (settles : Settles [.block, .bracket] [] word []) :
    Nested word :=
  settles.closes rfl

/-! ## The contexts as delimiters -/

/-- The delimiter of a context. -/
def Context.delimiter : Context → Delimiter
  | .block _ => .block
  | .bracket => .bracket

/-- The delimiters of some kinds among the open contexts. -/
def pendingIn (kinds : List Delimiter) (inner : List Context) : List Delimiter :=
  (inner.map Context.delimiter).filter (· ∈ kinds)

/-- The delimiters of some kinds that are open in a state. -/
def State.pendingIn (kinds : List Delimiter) (state : State) : List Delimiter :=
  Layout.pendingIn kinds ((state.stack.map (·.inner)).getD [])

section

variable {kinds : List Delimiter} (blocksCount : .block ∈ kinds)
include blocksCount

theorem pendingIn_block (column : Nat) (outer : List Context) :
    pendingIn kinds (.block column :: outer) = .block :: pendingIn kinds outer := by
  simp [pendingIn, Context.delimiter, blocksCount]

omit blocksCount in
theorem pendingIn_bracket (outer : List Context) :
    pendingIn kinds (.bracket :: outer) =
      if .bracket ∈ kinds then .bracket :: pendingIn kinds outer else pendingIn kinds outer := by
  by_cases counts : .bracket ∈ kinds <;> simp [pendingIn, Context.delimiter, counts]

omit blocksCount in
theorem neutral_itemSeparator : Neutral kinds (.mark .itemSeparator) := by
  intro delimiter _
  cases delimiter <;> exact ⟨rfl, rfl⟩

omit blocksCount in
/-- A symbol that is neither of block structure nor a bracket delimits nothing. -/
theorem neutral_of_not_bracket
    (noLayout : symbol.isLayout = false)
    (noBracket : Delimiter.bracket.opens symbol = false ∧
      Delimiter.bracket.closes symbol = false) :
    Neutral kinds symbol := by
  intro delimiter _
  cases delimiter with
  | block => exact Delimiter.block_not_layout noLayout
  | bracket => exact noBracket

omit blocksCount in
/-- Where brackets do not count, a symbol that is not of block structure delimits
nothing. -/
theorem neutral_of_uncounted (noLayout : symbol.isLayout = false) (uncounted : .bracket ∉ kinds) :
    Neutral kinds symbol := by
  intro delimiter member
  cases delimiter with
  | block => exact Delimiter.block_not_layout noLayout
  | bracket => exact (uncounted member).elim

theorem settles_dedent
    {program column : Nat} {left : List Context}
    (dedents : Dedents column program inner marks left) :
    Settles kinds (pendingIn kinds inner) (marks.map .mark) (pendingIn kinds left) := by
  induction dedents with
  | program | item => exact .neutral neutral_itemSeparator .done
  | bracket => exact .done
  | close _ _ hypothesis =>
    rw [pendingIn_block blocksCount]
    exact .closing blocksCount rfl hypothesis

theorem settles_startLine
    {after : Stack} {previous : Option Symbol} {column : Nat}
    (starts : startLine stack previous column token = some (marks, after)) :
    Settles kinds (pendingIn kinds stack.inner) (marks.map .mark)
      (pendingIn kinds after.inner) := by
  obtain ⟨-, rfl, rfl⟩ | ⟨rfl, rfl⟩ | ⟨-, dedents⟩ := startLine_cases starts
  · rw [pendingIn_block blocksCount]
    exact .opening blocksCount rfl .done
  · exact .done
  · exact settles_dedent blocksCount dedents

/-- The marks before a token keep step with the contexts. -/
theorem settles_arrive
    {state : State}
    (arrives : arrive indents state token = some (marks, stack)) :
    Settles kinds (state.pendingIn kinds) (marks.map .mark) (pendingIn kinds stack.inner) := by
  obtain ⟨before, previous, atLineStart⟩ := state
  cases before with
  | none =>
    cases arrives
    exact .done
  | some before =>
    cases atLineStart with
    | true => exact settles_startLine blocksCount arrives
    | false =>
      cases arrives
      exact .done

/-- A bracket is closed once the blocks inside it are. -/
theorem settles_closeBracket
    {left : List Context}
    (closes : closeBracket inner = some (marks, left)) :
    Settles kinds (pendingIn kinds inner) (marks.map .mark)
      (pendingIn kinds (.bracket :: left)) := by
  induction inner generalizing marks left with
  | nil => cases closes
  | cons context outer hypothesis =>
    cases context with
    | bracket =>
      cases closes
      exact .done
    | block column =>
      rw [closeBracket] at closes
      obtain ⟨⟨more, rest⟩, closesOuter, same⟩ := Option.map_eq_some_iff.mp closes
      cases same
      rw [pendingIn_block blocksCount]
      exact .closing blocksCount rfl (hypothesis closesOuter)

/-- A token and the marks that it brings keep step with the contexts, unless brackets count
and the token closes one where none is open. -/
theorem settles_passBracket
    (noLayout : token.symbol.isLayout = false)
    (closable : .bracket ∈ kinds → Delimiter.bracket.closes token.symbol = true →
      0 < stack.brackets) :
    Settles kinds (pendingIn kinds stack.inner)
      ((passBracket stack token).1.map .mark ++ [token.symbol])
      (pendingIn kinds (passBracket stack token).2.inner) := by
  unfold passBracket
  cases isSymbol : token.symbol with
  | mark mark =>
    rw [isSymbol] at noLayout closable
    by_cases opens : mark.opensBracket = true
    · simp only [opens, if_true]
      by_cases counts : .bracket ∈ kinds
      · rw [pendingIn_bracket, if_pos counts]
        exact .opening counts opens .done
      · rw [pendingIn_bracket, if_neg counts]
        exact .neutral (neutral_of_uncounted noLayout counts) .done
    · by_cases closes : mark.closesBracket = true
      · simp only [opens, closes, Bool.false_eq_true, if_false, if_true]
        have spec := closeBracket_spec stack.inner
        cases found : closeBracket stack.inner with
        | none =>
          rw [found] at spec
          have noBracket : stack.brackets = 0 := spec
          have uncounted : .bracket ∉ kinds := fun counts =>
            Nat.ne_of_gt (closable counts closes) noBracket
          exact .neutral (neutral_of_uncounted noLayout uncounted) .done
        | some pair =>
          obtain ⟨marks, left⟩ := pair
          refine (settles_closeBracket blocksCount found).append ?_
          by_cases counts : .bracket ∈ kinds
          · rw [pendingIn_bracket, if_pos counts]
            exact .closing counts closes .done
          · rw [pendingIn_bracket, if_neg counts]
            exact .neutral (neutral_of_uncounted noLayout counts) .done
      · simp only [opens, closes, Bool.false_eq_true, if_false]
        refine .neutral (neutral_of_not_bracket noLayout ⟨?_, ?_⟩) .done
        · exact Bool.eq_false_iff.mpr opens
        · exact Bool.eq_false_iff.mpr closes
  | _ => exact .neutral (neutral_of_not_bracket (by rfl) ⟨rfl, rfl⟩) .done

end

/-! ## Brackets that are never closed too often -/

/-- Behind so many open brackets, no part of a word from its start closes more brackets than
are open. -/
def Ahead (brackets : Nat) (word : List Symbol) : Prop :=
  ∀ front, front <+: word →
    front.countP Delimiter.bracket.closes ≤ brackets + front.countP Delimiter.bracket.opens

namespace Ahead

theorem closable
    {brackets : Nat} {rest : List Symbol}
    (ahead : Ahead brackets (symbol :: rest))
    (closes : Delimiter.bracket.closes symbol = true) :
    0 < brackets := by
  have here := ahead [symbol] (List.cons_prefix_cons.mpr ⟨rfl, List.nil_prefix⟩)
  have noOpening := Delimiter.opens_of_closes closes
  simpa [List.countP_cons, closes, noOpening, Nat.one_le_iff_ne_zero, Nat.pos_iff_ne_zero]
    using here

/-- Behind a symbol the number of open brackets has changed as the symbol says. -/
theorem behind
    {brackets left : Nat} {symbol : Symbol} {rest : List Symbol}
    (ahead : Ahead brackets (symbol :: rest))
    (passes : left + [symbol].countP Delimiter.bracket.closes =
      brackets + [symbol].countP Delimiter.bracket.opens) :
    Ahead left rest := by
  intro front isFront
  have whole := ahead (symbol :: front) (List.cons_prefix_cons.mpr ⟨rfl, isFront⟩)
  rw [← List.singleton_append, List.countP_append, List.countP_append] at whole
  omega

end Ahead

/-- A token changes the number of open brackets as its symbol says, unless it closes one
where none is open. -/
theorem brackets_passBracket
    (closable : Delimiter.bracket.closes token.symbol = true → 0 < stack.brackets) :
    (passBracket stack token).2.brackets + [token.symbol].countP Delimiter.bracket.closes =
      stack.brackets + [token.symbol].countP Delimiter.bracket.opens := by
  obtain ⟨-, -, -, passes⟩ := passBracket_spec stack token
  cases isSymbol : token.symbol with
  | mark mark =>
    rw [isSymbol] at passes closable
    simp only [depthAfter] at passes
    by_cases opens : mark.opensBracket = true
    · have noClosing : Delimiter.bracket.closes (.mark mark) = false :=
        Delimiter.closes_of_opens opens
      rw [passes _ (if_pos opens)]
      simp [Delimiter.opens, opens, noClosing]
    · by_cases closes : mark.closesBracket = true
      · obtain ⟨depth, isDepth⟩ :=
          Nat.exists_eq_succ_of_ne_zero (Nat.ne_of_gt (closable closes))
        rw [if_neg opens, if_pos closes, isDepth] at passes
        rw [passes depth rfl, isDepth]
        simp [Delimiter.opens, Delimiter.closes, opens, closes]
      · rw [passes _ ((if_neg opens).trans (if_neg closes))]
        simp [Delimiter.opens, Delimiter.closes, opens, closes]
  | _ =>
    rw [isSymbol] at passes
    exact passes _ rfl

theorem filter_marksAt (token : Token) (areLayout : ∀ mark ∈ marks, mark.isLayout = true) :
    (marksAt token marks).filter (fun token => !token.symbol.isLayout) = [] := by
  refine List.filter_eq_nil_iff.mpr fun other member => ?_
  obtain ⟨mark, isMark, rfl⟩ := List.mem_map.mp member
  simp [Symbol.isLayout, areLayout mark isMark]

namespace Run

variable {state last : State} {tokens out : List Token}

/-- Without its marks the output of a run is its input without the newlines. -/
theorem filter_not_layout
    (run : Run indents state tokens out last)
    (markFree : ∀ token ∈ tokens, token.symbol.isLayout = false) :
    out.filter (fun token => !token.symbol.isLayout) =
      tokens.filter fun token => !token.isMark .newline := by
  induction run with
  | done => rfl
  | newline isNewline _ hypothesis =>
    have later := hypothesis fun token member =>
      markFree token (List.mem_cons_of_mem _ member)
    simpa [Token.isMark, isNewline] using later
  | @token _ _ token _ _ _ stack noNewline _ arrives _ hypothesis =>
    have later := hypothesis fun token member =>
      markFree token (List.mem_cons_of_mem _ member)
    have noLayout := markFree token List.mem_cons_self
    rw [List.filter_append, List.filter_append,
      filter_marksAt token (brackets_of_arrive arrives).2.2,
      filter_marksAt token (passBracket_spec stack token).2.2.1]
    simp [noLayout, Token.isMark, noNewline, later]

/-- The output of a run keeps step with its contexts, if no token closes a bracket where
none is open or if brackets do not count. -/
theorem settles
    {kinds : List Delimiter}
    (blocksCount : .block ∈ kinds)
    (run : Run indents state tokens out last)
    (markFree : ∀ token ∈ tokens, token.symbol.isLayout = false)
    (ahead : .bracket ∈ kinds → Ahead state.brackets (tokens.map (·.symbol))) :
    Settles kinds (state.pendingIn kinds) (out.map (·.symbol)) (last.pendingIn kinds) := by
  induction run with
  | done => exact .done
  | newline isNewline _ hypothesis =>
    refine hypothesis
      (fun token member => markFree token (List.mem_cons_of_mem _ member)) ?_
    intro counts
    have whole := ahead counts
    rw [List.map_cons, isNewline] at whole
    exact whole.behind rfl
  | @token _ _ token rest out _ stack _ _ arrives _ hypothesis =>
    have aheadHere (counts : .bracket ∈ kinds) :
        Ahead stack.brackets (token.symbol :: rest.map (·.symbol)) := by
      rw [(brackets_of_arrive arrives).1]
      exact ahead counts
    have later := hypothesis
      (fun token member => markFree token (List.mem_cons_of_mem _ member))
      fun counts => (aheadHere counts).behind
        (brackets_passBracket (aheadHere counts).closable)
    have here := (settles_arrive blocksCount arrives).append
      (settles_passBracket blocksCount (markFree token List.mem_cons_self)
        fun counts => (aheadHere counts).closable)
    simpa [symbol_marksAt] using here.append later

/-- The brackets that are open at the end of a run are those that were open before it and
those that its tokens open and do not close. -/
theorem brackets_last
    (run : Run indents state tokens out last)
    (ahead : Ahead state.brackets (tokens.map (·.symbol))) :
    last.brackets + (tokens.map (·.symbol)).countP Delimiter.bracket.closes =
      state.brackets + (tokens.map (·.symbol)).countP Delimiter.bracket.opens := by
  induction run with
  | done => rfl
  | newline isNewline _ hypothesis =>
    rw [List.map_cons, isNewline] at ahead ⊢
    exact hypothesis (ahead.behind rfl)
  | @token _ last token rest _ _ stack _ _ arrives _ hypothesis =>
    rw [List.map_cons, ← (brackets_of_arrive arrives).1] at ahead ⊢
    have passes := brackets_passBracket ahead.closable
    have later : last.brackets + _ = (passBracket stack token).2.brackets + _ :=
      hypothesis (ahead.behind passes)
    rw [← List.singleton_append, List.countP_append, List.countP_append]
    omega

end Run

/-- At the end of input every open block is ended, if no bracket is open or if brackets do
not count. -/
theorem settles_closeAll
    {kinds : List Delimiter}
    (blocksCount : .block ∈ kinds)
    (noBracket : .bracket ∈ kinds → inner.count .bracket = 0) :
    Settles kinds (pendingIn kinds inner) ((closeAll inner).map .mark) [] := by
  induction inner with
  | nil => exact .done
  | cons context outer hypothesis =>
    cases context with
    | block column =>
      rw [pendingIn_block blocksCount]
      exact .closing blocksCount rfl
        (hypothesis fun counts => by simpa using noBracket counts)
    | bracket =>
      have uncounted : .bracket ∉ kinds := fun counts => by simpa using noBracket counts
      rw [pendingIn_bracket, if_neg uncounted]
      exact hypothesis fun counts => (uncounted counts).elim

/-- What is laid out is a run up to the end of input, which ends the open blocks. -/
theorem exists_run_of_resolve
    {body result : List Token} {final : Token}
    (isFinal : final.isMark .endOfInput = true)
    (inside : ∀ token ∈ body, token.isMark .endOfInput = false)
    (resolved : resolve indents (body ++ [final]) = .ok result) :
    ∃ out last, Run indents .initial body out last ∧
      result =
        out ++ (marksAt final (closeAll ((last.stack.map (·.inner)).getD [])) ++ [final]) := by
  have noEnd : ∀ token ∈ body, token.symbol ≠ .mark .endOfInput := by
    intro token member isEnd
    simpa [Token.isMark, isEnd] using inside token member
  obtain ⟨out, last, run⟩ := exists_run noEnd resolved
  have isEnd : final.symbol = .mark .endOfInput := of_decide_eq_true isFinal
  have ends := run.resolveFrom_eq [final]
  simp only [resolveFrom, Token.isMark, isEnd] at ends
  exact ⟨out, last, run, Except.ok.inj (resolved.symm.trans ends)⟩

/-- The whole output opens and closes its delimiters, brackets only if they count and are
balanced in the input. -/
theorem settles_whole
    {kinds : List Delimiter}
    (blocksCount : .block ∈ kinds)
    {body out : List Token} {final : Token} {last : State}
    (isFinal : final.isMark .endOfInput = true)
    (run : Run indents .initial body out last)
    (markFree : ∀ token ∈ body, token.symbol.isLayout = false)
    (balanced : .bracket ∈ kinds →
      Delimiter.bracket.Balances ((body ++ [final]).map (·.symbol))) :
    Settles kinds []
      ((out ++ (marksAt final (closeAll ((last.stack.map (·.inner)).getD [])) ++ [final])).map
        (·.symbol)) [] := by
  have isEnd : final.symbol = .mark .endOfInput := of_decide_eq_true isFinal
  have aheadBody (counts : .bracket ∈ kinds) : Ahead 0 (body.map (·.symbol)) := by
    intro front isFront
    have whole := (balanced counts).ahead front
    rw [List.map_append] at whole
    simpa using whole (isFront.trans (List.prefix_append _ _))
  have noBracket (counts : .bracket ∈ kinds) : last.brackets = 0 := by
    have settled := (balanced counts).settled
    have ends : last.brackets + _ = 0 + _ := run.brackets_last (aheadBody counts)
    simp only [List.map_append, List.countP_append, List.map_cons, List.map_nil, isEnd] at settled
    have noOpening : [Symbol.mark .endOfInput].countP Delimiter.bracket.opens = 0 := rfl
    have noClosing : [Symbol.mark .endOfInput].countP Delimiter.bracket.closes = 0 := rfl
    omega
  have noContext (counts : .bracket ∈ kinds) :
      ((last.stack.map (·.inner)).getD []).count .bracket = 0 := by
    rw [← noBracket counts, State.brackets]
    cases last.stack <;> rfl
  have neutralEnd : Neutral kinds (.mark .endOfInput) := neutral_of_not_bracket rfl ⟨rfl, rfl⟩
  have upToEnd : Settles kinds [] _ _ := run.settles blocksCount markFree aheadBody
  have closing := settles_closeAll blocksCount noContext
  simpa [symbol_marksAt, isEnd] using (upToEnd.append closing).append (.neutral neutralEnd .done)

/-- The layout of a token list without marks of block structure, whatever the recorded
columns: without its marks it is the list without the newlines; the marks of blocks are
balanced; and if the brackets of the list are balanced, blocks and brackets are nested. -/
theorem resolve_nests_marks
    {indents : Indents}
    {tokens result : List Token}
    (endsOnce : EndsOnce tokens)
    (markFree : ∀ token ∈ tokens, token.symbol.isLayout = false)
    (resolved : resolve indents tokens = .ok result) :
    result.filter (fun token => !token.symbol.isLayout) =
        tokens.filter (fun token => !token.isMark .newline) ∧
      Delimiter.block.Balances (result.map (·.symbol)) ∧
      (Delimiter.bracket.Balances (tokens.map (·.symbol)) → Nested (result.map (·.symbol))) := by
  obtain ⟨body, final, rfl, isFinal, inside⟩ := endsOnce
  obtain ⟨out, last, run, rfl⟩ := exists_run_of_resolve isFinal inside resolved
  have bodyFree : ∀ token ∈ body, token.symbol.isLayout = false := fun token member =>
    markFree token (List.mem_append_left _ member)
  refine ⟨?_, ?_, fun balanced => ?_⟩
  · have isEnd : final.symbol = .mark .endOfInput := of_decide_eq_true isFinal
    rw [List.filter_append, List.filter_append, run.filter_not_layout bodyFree,
      filter_marksAt final fun _ => isLayout_of_mem_closeAll]
    simp [Token.isMark, isEnd, Symbol.isLayout, Mark.isLayout]
  · have noBrackets : Delimiter.bracket ∉ [Delimiter.block] := by decide
    exact (settles_whole List.mem_cons_self isFinal run bodyFree
      fun counts => (noBrackets counts).elim).balances
  · exact (settles_whole List.mem_cons_self isFinal run bodyFree fun _ => balanced).nested

/-- The tokens of a function in parentheses whose body stands on a line of its own, and of
one more item. -/
def parenthesised : List Token :=
  let placed (symbol : Symbol) (line column : Nat) : Token :=
    ⟨symbol, [], ⟨none, ⟨line, column, 0⟩, ⟨line, column, 0⟩⟩⟩
  [placed (.identifier "f") 1 1, placed (.mark .openParen) 1 3, placed (.mark .funWord) 1 4,
   placed (.identifier "x") 1 8, placed (.mark .arrow) 1 10, placed (.mark .newline) 1 12,
   placed (.identifier "x") 2 5, placed (.mark .closeParen) 2 6, placed (.mark .newline) 2 7,
   placed (.identifier "y") 3 1, placed (.mark .newline) 3 2, placed (.mark .endOfInput) 4 1]

/-- The block inside the parentheses ends before they are closed. -/
theorem resolve_nests_marks_parenthesised :
    ∃ result, resolve [] parenthesised = .ok result ∧
      EndsOnce parenthesised ∧
      (∀ token ∈ parenthesised, token.symbol.isLayout = false) ∧
      Delimiter.bracket.Balances (parenthesised.map (·.symbol)) ∧
      result.map (·.symbol) =
        [.identifier "f", .mark .openParen, .mark .funWord, .identifier "x", .mark .arrow,
         .mark .blockStart, .identifier "x", .mark .blockEnd, .mark .closeParen,
         .mark .itemSeparator, .identifier "y", .mark .endOfInput] ∧
      Delimiter.block.Balances (result.map (·.symbol)) ∧ Nested (result.map (·.symbol)) := by
  have endsOnce : EndsOnce parenthesised := ⟨parenthesised.dropLast, _, rfl, rfl, by decide⟩
  have markFree : ∀ token ∈ parenthesised, token.symbol.isLayout = false := by decide
  have balanced : Delimiter.bracket.Balances (parenthesised.map (·.symbol)) := by decide
  obtain ⟨-, blocks, nested⟩ := @resolve_nests_marks [] parenthesised _ endsOnce markFree rfl
  exact ⟨_, rfl, endsOnce, markFree, balanced, rfl, blocks, nested balanced⟩

end Layout

end Offside
