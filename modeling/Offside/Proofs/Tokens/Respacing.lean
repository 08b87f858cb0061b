import Mathlib.Data.List.SplitBy
import Mathlib.Data.List.TakeWhile
import Offside.Proofs.Tokens.Lines

namespace Offside

/-!
# Tokens written anew

A token is scanned from its own text: what follows only has to end it.  So the tokens of a source
can be written anew with a blank between two tokens of a line and a line feed between two lines,
and are read back as they were.  Where tokens touched before, the blank parts them; where they
were apart, it keeps them apart.  Whether a sign belongs to a number is not changed, since that
depends on the token before and on the start of a line only.
-/

variable {text rest more : Text} {symbol : Symbol} {signs : Bool} {first : CodePoint}

namespace Scan

/-! ## Numbers, words and signs on their own -/

variable {size : Nat}

/-- The start of a text that fulfils a test is found in every part that covers it. -/
theorem takeWhile_take (test : CodePoint → Bool) (covered : (text.takeWhile test).length ≤ size) :
    (text.take size).takeWhile test = text.takeWhile test := by
  rw [← List.take_takeWhile, List.take_of_length_le covered]

/-- A fraction is read from its point and its digits. -/
theorem fraction?_take (text : Text) :
    fraction? (text.take (((fraction? text).map (·.length + 1)).getD 0)) = fraction? text := by
  cases text with
  | nil => rfl
  | cons code text =>
    rw [fraction?_eq (code :: text)]
    split
    · next pointed =>
        cases Option.some.inj pointed
        rw [fraction?_eq, Option.map_some, Option.getD_some, List.take_succ_cons,
          List.head?_cons, if_pos rfl, List.tail_cons, List.tail_cons,
          takeWhile_take _ (Nat.le_refl _)]
    · rfl

theorem signSize_take (positive : 0 < size) : signSize (text.take size) = signSize text := by
  rw [signSize_eq, signSize_eq, List.head?_take, if_neg (Nat.ne_of_gt positive)]

/-- A number is read from its own text. -/
theorem number_alone (scanned : number text = .token symbol size) (positive : 0 < size) :
    number (text.take size) = .token symbol size := by
  obtain ⟨rfl, -, -⟩ := number_token scanned
  have sign : signSize (text.take (numberSize text)) = signSize text := signSize_take positive
  have digits : ((text.take (numberSize text)).drop (signSize text)).takeWhile (·.isDigit) =
      (text.drop (signSize text)).takeWhile (·.isDigit) := by
    rw [List.drop_take]
    refine takeWhile_take _ ?_
    unfold numberSize
    simp only
    omega
  have fraction : fraction? ((text.take (numberSize text)).drop (signSize text +
        ((text.drop (signSize text)).takeWhile (·.isDigit)).length)) =
      fraction? (text.drop (signSize text +
        ((text.drop (signSize text)).takeWhile (·.isDigit)).length)) := by
    rw [List.drop_take, ← fraction?_take (text.drop _)]
    unfold numberSize
    simp only [Nat.add_sub_cancel_left]
  have whole : numberSize (text.take (numberSize text)) = numberSize text := by
    rw [numberSize]
    simp only [sign, digits, fraction]
    rfl
  have nothing : (text.take (numberSize text)).drop (numberSize text) = [] :=
    List.drop_eq_nil_of_le (List.length_take_le _ _)
  have head : (text.take (numberSize text)).head? = text.head? := by
    rw [List.head?_take, if_neg (Nat.ne_of_gt positive)]
  rw [number_eq] at scanned ⊢
  simp only [sign, digits, fraction, whole, nothing, head, List.take_take, Nat.min_self,
    List.head?_nil, Option.any_none, Bool.false_eq_true, if_false] at scanned ⊢
  split at scanned
  · cases scanned
  · exact scanned

/-- The start of a number is part of it. -/
theorem startsUnsigned_take (starts : startsUnsigned text = true) :
    startsUnsigned (text.take ((text.takeWhile (·.isDigit)).length +
      ((fraction? (text.drop (text.takeWhile (·.isDigit)).length)).map (·.length + 1)).getD 0)) =
        true := by
  cases text with
  | nil => cases starts
  | cons first rest =>
    rw [startsUnsigned_eq] at starts ⊢
    by_cases digit : first.isDigit = true
    · rw [List.takeWhile_cons_of_pos digit, List.length_cons, Nat.add_right_comm,
        List.take_succ_cons]
      simp [digit]
    · simp only [List.head?_cons, List.tail_cons, Option.any_some, digit, Bool.false_or,
        Bool.and_eq_true, beq_iff_eq, Option.some.injEq] at starts
      obtain ⟨rfl, behind⟩ := starts
      cases rest with
      | nil => cases behind
      | cons second rest =>
        have isDigit : second.isDigit = true := behind
        rw [List.takeWhile_cons_of_neg digit, List.length_nil, List.drop_zero, Nat.zero_add,
          fraction?_eq, List.head?_cons, if_pos rfl, Option.map_some, Option.getD_some,
          List.tail_cons, List.takeWhile_cons_of_pos isDigit, List.length_cons,
          List.take_succ_cons, List.take_succ_cons]
        simp [isDigit]

theorem startsNumber_take (starts : startsNumber signs (first :: rest) = true) :
    startsNumber signs ((first :: rest).take (numberSize (first :: rest))) = true := by
  have positive := numberSize_pos starts
  obtain ⟨less, isSize⟩ : ∃ less, numberSize (first :: rest) = less + 1 :=
    ⟨numberSize (first :: rest) - 1, by omega⟩
  rw [isSize, List.take_succ_cons, startsNumber_eq]
  rw [startsNumber_eq] at starts
  split
  · next signed =>
      rw [if_pos signed, Bool.and_eq_true] at starts
      have sign : signSize (first :: rest) = 1 := by
        rw [signSize_eq, if_pos (by simpa using signed)]
      have size : less = (rest.takeWhile (·.isDigit)).length +
          ((fraction? (rest.drop (rest.takeWhile (·.isDigit)).length)).map
            (·.length + 1)).getD 0 := by
        rw [numberSize] at isSize
        simp only [sign, Nat.add_comm 1, List.drop_succ_cons, List.drop_zero] at isSize
        omega
      rw [size, starts.1, Bool.true_and]
      exact startsUnsigned_take starts.2
  · next unsigned =>
      rw [if_neg unsigned] at starts
      have sign : signSize (first :: rest) = 0 := by
        rw [signSize_eq, if_neg (by simpa using unsigned)]
      have taken := startsUnsigned_take starts
      rw [numberSize] at isSize
      simp only [sign, Nat.zero_add, List.drop_zero] at isSize
      rw [isSize, List.take_succ_cons] at taken
      exact taken

/-- What starts a number also starts one with more behind it. -/
theorem startsUnsigned_of_front (starts : startsUnsigned text = true) (more : Text) :
    startsUnsigned (text ++ more) = true := by
  cases text with
  | nil => cases starts
  | cons first rest =>
    rw [startsUnsigned_eq] at starts ⊢
    cases rest with
    | nil =>
      have isDigit : first.isDigit = true := by simpa using starts
      simp [isDigit]
    | cons second rest => exact starts

theorem startsNumber_of_front (starts : startsNumber signs (first :: rest) = true) (more : Text) :
    startsNumber signs (first :: (rest ++ more)) = true := by
  rw [startsNumber_eq] at starts ⊢
  split
  · next signed =>
      rw [if_pos signed, Bool.and_eq_true] at starts
      rw [starts.1, startsUnsigned_of_front starts.2, Bool.and_self]
  · next unsigned =>
      rw [if_neg unsigned] at starts
      exact startsUnsigned_of_front starts more

/-- A word is read from its own text. -/
theorem word_alone (scanned : word (text ++ more) = .token symbol text.length) :
    word text = .token symbol text.length := by
  unfold word at scanned ⊢
  obtain ⟨isSymbol, isSize⟩ := Scanned.token.inj scanned
  have letters : (text ++ more).takeWhile (·.continuesWord) = text := by
    have front := List.prefix_iff_eq_take.mp <|
      List.takeWhile_prefix (l := text ++ more) fun code => code.continuesWord
    rw [isSize, List.take_left] at front
    exact front
  have whole : text.takeWhile (·.continuesWord) = text := by
    have passes := List.all_takeWhile (l := text ++ more) (p := fun code => code.continuesWord)
    rw [letters] at passes
    exact List.takeWhile_eq_self_iff.mpr (List.all_eq_true.mp passes)
  rw [letters] at isSymbol
  simp only [whole, isSymbol]

/-- A sign is read from its own text. -/
theorem sign_alone
    {tail : Text}
    (scanned : sign first (tail ++ more) = .token symbol (tail.length + 1)) :
    sign first tail = .token symbol (tail.length + 1) := by
  rcases (sign_token scanned).2 with one | ⟨two, -⟩
  · obtain rfl : tail = [] := List.eq_nil_of_length_eq_zero (Nat.succ.inj one)
    unfold sign at scanned
    split at scanned
    all_goals cases scanned
    all_goals rfl
  · obtain ⟨second, rfl⟩ := List.length_eq_one_iff.mp (Nat.succ.inj two)
    rw [List.singleton_append] at scanned
    unfold sign at scanned
    split at scanned
    all_goals cases scanned
    all_goals
      next shape =>
        cases shape
        rfl

end Scan

/-- A token is scanned from its own text. -/
theorem scan_alone
    {tail : Text}
    (scanned : scan signs first (tail ++ more) = .token symbol (tail.length + 1)) :
    scan signs first tail = .token symbol (tail.length + 1) := by
  have whole (rest : Text) : (first :: (tail ++ rest)).take (tail.length + 1) = first :: tail := by
    rw [List.take_succ_cons, List.take_left]
  unfold scan at scanned
  split at scanned
  · obtain ⟨body, after, shape, _, _, _, stable⟩ := Scan.string_token scanned
    obtain ⟨left, rfl⟩ := exists_behind_quote shape (by omega)
    exact stable left
  · next within =>
      obtain ⟨body, after, rfl, _, _, _, stable⟩ := Scan.rawString_token scanned
      obtain ⟨left, rfl⟩ := exists_behind_quote
        (show tail ++ more = (.scalar '"' :: body) ++ .scalar '"' :: after from within)
        (by rw [List.length_cons]; omega)
      exact stable left
  · obtain ⟨body, after, shape, _, _, _, stable⟩ := Scan.character_token scanned
    obtain ⟨left, rfl⟩ := exists_behind_quote shape (by omega)
    exact stable left
  · next notString notCharacter notRaw =>
      unfold scan
      split
      · exact (notString rfl).elim
      · exact (notRaw _ rfl (List.cons_append ..)).elim
      · exact (notCharacter rfl).elim
      · split at scanned
        · next starts =>
            have size := (Scan.number_token scanned).1
            have alone := Scan.number_alone scanned (Nat.succ_pos _)
            have stillStarts := Scan.startsNumber_take starts
            rw [whole] at alone
            rw [← size, whole] at stillStarts
            rw [if_pos stillStarts]
            exact alone
        next startsNone =>
        rw [if_neg fun starts => startsNone (Scan.startsNumber_of_front starts more)]
        split at scanned
        · next startsWord =>
            rw [← List.cons_append] at scanned
            rw [if_pos startsWord]
            exact Scan.word_alone scanned
        · next noWord =>
            rw [if_neg noWord]
            exact Scan.sign_alone scanned

/-- A text is scanned as a symbol wherever nothing prolongs it. -/
def Stands (signs : Bool) (lexeme : Text) (symbol : Symbol) : Prop :=
  ∃ first tail, lexeme = first :: tail ∧
    ∀ more, Parts more → scan signs first (tail ++ more) = .token symbol (tail.length + 1)

/-- What the first part starts with stands in front of all parts. -/
theorem Text.join_append_cons (separator front part : Text) (parts : List Text) :
    Text.join separator ((front ++ part) :: parts) =
      front ++ Text.join separator (part :: parts) := by
  cases parts with
  | nil => rfl
  | cons next parts =>
    rw [Text.join_cons (List.cons_ne_nil _ _), Text.join_cons (List.cons_ne_nil _ _),
      List.append_assoc]

namespace TokenStream

/-- The tokens of a source can be written anew.  `line` is the line of the token before, `inLine`
says whether that line goes on, and `signs` whether a sign may start a number. -/
inductive Legible : (line : Option Nat) → (inLine signs : Bool) → List Token → Prop where
  | done
      {line : Option Nat} {signs : Bool} {final : Token} :
      final.symbol = .mark .endOfInput →
      final.lexeme = [] →
      Legible line false signs [final]
  | newline
      {line : Nat} {signs : Bool} {token : Token} {rest : List Token} :
      token.symbol = .mark .newline →
      Legible (some line) false true rest →
      Legible (some line) true signs (token :: rest)
  | token
      {line : Option Nat} {inLine signs : Bool} {token : Token} {rest : List Token} :
      token.isVisible = true →
      (inLine = true ↔ line = some token.span.start.line) →
      (inLine = false → signs = true) →
      Stands signs token.lexeme token.symbol →
      Legible (some token.span.start.line) true (!token.symbol.endsOperand) rest →
      Legible line inLine signs (token :: rest)

/-- What a passage reads can be written anew. -/
theorem Passage.legible
    {file : Option Text} {reader last : Reader} {tokens : List Token}
    {indents : List (Nat × Nat)}
    (passage : Passage file reader text tokens indents last rest)
    {line : Option Nat}
    (goesOn : reader.inLine = true → line = some reader.position.line)
    (startsAnew : reader.inLine = false →
      reader.signAllowed = true ∧ ∀ earlier ∈ line, earlier < reader.position.line) :
    Legible line reader.inLine reader.signAllowed (tokens ++ endTokens file last) := by
  induction passage generalizing line with
  | @done reader =>
    obtain ⟨position, skip, inLine, signs⟩ := reader
    cases inLine with
    | true =>
      rw [goesOn rfl]
      exact .newline rfl (.done rfl rfl)
    | false => exact .done rfl rfl
  | @lineEnd start _ _ _ _ _ _ _ hypothesis =>
    rw [goesOn rfl]
    refine .newline rfl (hypothesis Bool.noConfusion fun _ => ⟨rfl, ?_⟩)
    rintro _ ⟨⟩
    rw [Position.advance_newline_line]
    exact Nat.lt_succ_self _
  | @emptyLine start _ _ _ _ _ _ _ hypothesis =>
    obtain ⟨rfl, before⟩ := startsAnew rfl
    refine hypothesis Bool.noConfusion fun _ => ⟨rfl, fun earlier member => ?_⟩
    rw [Position.advance_newline_line]
    exact Nat.lt_succ_of_lt (before earlier member)
  | @blank start inLine _ code _ _ _ _ _ isBlank _ hypothesis =>
    have sameLine : (start.advance code).line = start.line :=
      Position.advanceBy_line (List.forall_mem_singleton.mpr (ne_newline_of_isBlank isBlank)) start
    rw [← sameLine] at goesOn startsAnew
    exact hypothesis goesOn startsAnew
  | @comment start inLine _ body _ _ _ _ _ inBody _ _ hypothesis =>
    have sameLine : (start.advanceBy (.scalar '#' :: body)).line = start.line :=
      Position.advanceBy_line (List.forall_mem_cons.mpr ⟨by decide, inBody⟩) start
    rw [← sameLine] at goesOn startsAnew
    exact hypothesis goesOn startsAnew
  | @token start inLine signs first tail _ _ symbol _ _ _ scanned _ hypothesis =>
    have sameLine := Position.advanceBy_line (ne_newline_of_mem_scanned scanned) start
    refine .token (Passage.pieceToken_isVisible file scanned (first :: tail) start) ⟨goesOn, ?_⟩
      (fun notInLine => (startsAnew notInLine).1) ⟨first, tail, rfl, ?_⟩
      (hypothesis (fun _ => ?_) Bool.noConfusion)
    · intro same
      cases inLine with
      | true => rfl
      | false => exact (Nat.lt_irrefl _ ((startsAnew rfl).2 _ same)).elim
    · exact fun more parts => scan_append (scan_alone scanned) parts
    · exact congrArg some sameLine.symm

/-! ## Lines with single blanks -/

/-- The visible tokens of each line that has one. -/
def tokenLines (tokens : List Token) : List (List Token) :=
  (tokens.filter (·.isVisible)).splitBy fun token next =>
    token.span.start.line == next.span.start.line

/-- Tokens written anew: those of a line with single blanks between them, and the lines with
line feeds between them. -/
def respaced (tokens : List Token) : Text :=
  Text.join [.scalar '\n'] ((tokenLines tokens).map fun line =>
    Text.join [.scalar ' '] (line.map (·.lexeme)))

/-- What parts a token from the one before, which stands on a given line if there is one. -/
def gap (line : Option Nat) (token : Token) : Text :=
  match line with
  | none => []
  | some line => if line = token.span.start.line then [.scalar ' '] else [.scalar '\n']

/-- Visible tokens written one by one behind a token of a line. -/
def spread : Option Nat → List Token → Text
  | _, [] => []
  | line, token :: rest =>
    gap line token ++ (token.lexeme ++ spread (some token.span.start.line) rest)

/-- Behind a token, what is written anew parts it from the next one. -/
theorem parts_spread (line : Nat) (tokens : List Token) : Parts (spread (some line) tokens) := by
  cases tokens with
  | nil => exact .nil
  | cons token rest =>
    rw [spread, gap]
    split
    · exact .cons (by decide)
    · exact .cons (by decide)

/-- The lines of a list of tokens with one more in front. -/
theorem splitBy_cons_cons {α : Type} (related : α → α → Bool) (first second : α) (rest : List α) :
    (first :: second :: rest).splitBy related =
      if related first second then
        ((second :: rest).splitBy related).modifyHead (first :: ·)
      else [first] :: (second :: rest).splitBy related := by
  split
  · next isRelated =>
      cases pieces : (second :: rest).splitBy related with
      | nil => exact (List.cons_ne_nil _ _ (List.splitBy_eq_nil.mp pieces)).elim
      | cons line lines =>
        obtain ⟨shape, filled, chains, parted⟩ := List.splitBy_eq_iff.mp pieces
        rw [List.mem_cons, not_or] at filled
        obtain ⟨chain, laterChains⟩ := List.forall_mem_cons.mp chains
        cases line with
        | nil => exact (filled.1 rfl).elim
        | cons head line =>
          cases shape
          refine List.splitBy_eq_iff.mpr ⟨rfl, ?_, ?_, ?_⟩
          · rw [List.modifyHead_cons, List.mem_cons, not_or]
            exact ⟨(List.cons_ne_nil _ _).symm, filled.2⟩
          · exact List.forall_mem_cons.mpr
              ⟨List.isChain_cons_cons.mpr ⟨isRelated, chain⟩, laterChains⟩
          · cases lines with
            | nil => exact List.isChain_singleton _
            | cons next lines =>
              obtain ⟨⟨_, isFilled, notRelated⟩, later⟩ := List.isChain_cons_cons.mp parted
              exact List.isChain_cons_cons.mpr
                ⟨⟨List.cons_ne_nil _ _, isFilled, notRelated⟩, later⟩
  · next notRelated =>
      have parted := List.splitBy_append_cons (l := [first]) (r := related) (a := second) rest
        (by simpa using notRelated)
      rw [List.splitBy_of_isChain (List.cons_ne_nil _ _) (List.isChain_singleton _)] at parted
      exact parted

/-- Lines written one by one are their tokens written one by one. -/
theorem spread_eq_join (tokens : List Token) :
    spread none tokens =
      Text.join [.scalar '\n']
        ((tokens.splitBy fun token next => token.span.start.line == next.span.start.line).map
          fun line => Text.join [.scalar ' '] (line.map (·.lexeme))) := by
  induction tokens with
  | nil => rfl
  | cons token rest hypothesis =>
    cases rest with
    | nil => simp [spread, gap, Text.join, List.splitBy, List.splitBy.loop]
    | cons next rest =>
      have later : spread (some token.span.start.line) (next :: rest) =
          gap (some token.span.start.line) next ++ spread none (next :: rest) := rfl
      rw [spread, gap, List.nil_append, later, hypothesis, splitBy_cons_cons]
      cases pieces : (next :: rest).splitBy
          fun token next => token.span.start.line == next.span.start.line with
      | nil => exact (List.cons_ne_nil _ _ (List.splitBy_eq_nil.mp pieces)).elim
      | cons line lines =>
        have filled : line ≠ [] :=
          List.ne_nil_of_mem_splitBy (pieces ▸ List.mem_cons_self)
        by_cases sameLine : token.span.start.line = next.span.start.line
        · rw [gap, if_pos sameLine, if_pos (beq_iff_eq.mpr sameLine), List.modifyHead_cons,
            List.map_cons, List.map_cons, List.map_cons,
            Text.join_cons (mt List.map_eq_nil_iff.mp filled), Text.join_append_cons,
            Text.join_append_cons]
        · rw [gap, if_neg sameLine, if_neg (mt beq_iff_eq.mp sameLine),
            List.map_cons (a := [token]),
            Text.join_cons (mt List.map_eq_nil_iff.mp (List.cons_ne_nil _ _))]
          rfl

/-! ## Reading back -/

/-- A token that is read as another one was: as the same symbol, and from the same text unless it
is a newline. -/
def ReadsAs (token other : Token) : Prop :=
  token.symbol = other.symbol ∧ (other.symbol ≠ .mark .newline → token.lexeme = other.lexeme)

/-- Tokens that can be written anew are read back.  The newline in front of a line is written
with the first token of that line, so one that has been read already is read back late. -/
theorem Legible.readBack
    {line : Option Nat} {inLine : Bool} {tokens : List Token}
    (legible : Legible line inLine signs tokens)
    (file : Option Text)
    (start : Position)
    {newSigns : Bool}
    (agrees : line.isSome = inLine → newSigns = signs) :
    ∃ newTokens indents last,
      Passage file ⟨start, 0, line.isSome, newSigns⟩ (spread line (tokens.filter (·.isVisible)))
        newTokens indents last [] ∧
      ∀ newline : Token, newline.symbol = .mark .newline →
        List.Forall₂ ReadsAs (newTokens ++ endTokens file last)
          (if line.isSome && !inLine then newline :: tokens else tokens) := by
  induction legible generalizing start newSigns with
  | @done line signs final isEnd isEmpty =>
    have invisible : [final].filter (·.isVisible) = [] := by
      simp [Token.isVisible_iff, isEnd]
    rw [invisible]
    refine ⟨[], [], _, .done, fun newline isNewline => ?_⟩
    have ends : ReadsAs ⟨.mark .endOfInput, [], ⟨file, start, start⟩⟩ final :=
      ⟨isEnd.symm, fun _ => isEmpty.symm⟩
    cases line with
    | none => exact .cons ends .nil
    | some line =>
      exact .cons ⟨isNewline.symm, fun other => (other isNewline).elim⟩ (.cons ends .nil)
  | @newline line signs token rest isNewline _ hypothesis =>
    have invisible : ¬ token.isVisible = true := by
      simp [Token.isVisible_iff, isNewline]
    rw [List.filter_cons_of_neg invisible]
    obtain ⟨newTokens, indents, last, passage, alike⟩ :=
      hypothesis start Bool.noConfusion
    exact ⟨newTokens, indents, last, passage, fun _ _ => alike token isNewline⟩
  | @token line inLine signs token rest isVisible goesOn startsAnew stands _ hypothesis =>
    obtain ⟨first, tail, isLexeme, scans⟩ := stands
    have scanned := scans _
      (parts_spread token.span.start.line (rest.filter (·.isVisible)))
    -- The token and what follows it, wherever the gap in front of it leads.
    have written (place : Position) (newInLine : Bool) :
        ∃ newTokens indents last,
          Passage file ⟨place, 0, newInLine, signs⟩
            (token.lexeme ++ spread (some token.span.start.line) (rest.filter (·.isVisible)))
            newTokens indents last [] ∧
          List.Forall₂ ReadsAs (newTokens ++ endTokens file last) (token :: rest) := by
      obtain ⟨newTokens, indents, last, passage, alike⟩ :=
        hypothesis (place.advanceBy (first :: tail)) fun _ => rfl
      rw [isLexeme]
      exact ⟨_, _, last, .token scanned passage,
        .cons ⟨rfl, fun _ => isLexeme.symm⟩ (alike (newlineToken file place) rfl)⟩
    rw [List.filter_cons_of_pos isVisible, spread]
    cases line with
    | none =>
      obtain rfl : inLine = false := by
        cases inLine with
        | true => cases goesOn.mp rfl
        | false => rfl
      obtain rfl := agrees rfl
      obtain ⟨newTokens, indents, last, passage, alike⟩ := written start false
      exact ⟨newTokens, indents, last, passage, fun _ _ => alike⟩
    | some line =>
      cases inLine with
      | true =>
        obtain rfl := agrees rfl
        obtain ⟨newTokens, indents, last, passage, alike⟩ :=
          written (start.advance (.scalar ' ')) true
        rw [gap, if_pos (Option.some.inj (goesOn.mp rfl))]
        exact ⟨newTokens, indents, last, .blank (by decide) passage, fun _ _ => alike⟩
      | false =>
        obtain rfl := startsAnew rfl
        obtain ⟨newTokens, indents, last, passage, alike⟩ :=
          written (start.advance (.scalar '\n')) false
        have otherLine : line ≠ token.span.start.line := fun same =>
          Bool.noConfusion (goesOn.mpr (congrArg some same))
        rw [gap, if_neg otherLine]
        exact ⟨_, indents, last, .lineEnd passage, fun newline isNewline =>
          .cons ⟨isNewline.symm, fun other => (other isNewline).elim⟩ alike⟩

end TokenStream

open TokenStream in
/-- Written anew with single blanks and line feeds, the tokens of a source that is read without
failure are read again without failure, as the same symbols from the same texts. -/
theorem tokenize_respaced
    (file : Option Text)
    (source : Text)
    (accepted : (tokenize file source).failure = none) :
    (tokenize file (respaced (tokenize file source).tokens)).failure = none ∧
      List.Forall₂ ReadsAs (tokenize file (respaced (tokenize file source).tokens)).tokens
        (tokenize file source).tokens := by
  obtain ⟨tokens, indents, last, passage⟩ := exists_passage_of_tokenize accepted
  have legible : Legible none false true (tokens ++ endTokens file last) :=
    passage.legible Bool.noConfusion fun _ => ⟨rfl, fun _ member => nomatch member⟩
  obtain ⟨newTokens, newIndents, newLast, newPassage, alike⟩ :=
    legible.readBack file Reader.initial.position fun _ => rfl
  rw [spread_eq_join] at newPassage
  rw [tokenize_eq_of_passage passage]
  rw [tokenize_eq_of_passage (show Passage file .initial (respaced _) _ _ _ _ from newPassage)]
  exact ⟨rfl, alike (newlineToken file newLast.position) rfl⟩

/-- Tokens that touch each other, among them a sign that belongs to a number and one that does
not. -/
def touchingTokens : Text :=
  "a-1 # b\n\n  f[-2]r\"c\""

open TokenStream in
theorem tokenize_respaced_touching :
    respaced (tokenize none touchingTokens).tokens = "a - 1\nf [ -2 ] r\"c\"" ∧
      (tokenize none touchingTokens).failure = none ∧
      (tokenize none (respaced (tokenize none touchingTokens).tokens)).failure = none ∧
      List.Forall₂ ReadsAs (tokenize none (respaced (tokenize none touchingTokens).tokens)).tokens
        (tokenize none touchingTokens).tokens := by
  have accepted : (tokenize none touchingTokens).failure = none := by decide +kernel
  exact ⟨by decide +kernel, accepted, tokenize_respaced none touchingTokens accepted⟩

end Offside
