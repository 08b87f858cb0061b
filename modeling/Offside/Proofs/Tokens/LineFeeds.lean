import Offside.Proofs.Tokens.Joined
import Offside.Proofs.Tokens.Lossless

namespace Offside

/-!
# Line feeds between tokens

No token and no comment goes past a line feed, so a passage can be cut there.  What stands
behind the line feed is read alike behind a blank, where the line goes on: the tokens have the
same symbols, apart from a number with a sign, and the lines after that start in the same
columns.
-/

namespace Position

theorem advance_column
    {first second : Position}
    (same : first.column = second.column)
    (code : CodePoint) :
    (first.advance code).column = (second.advance code).column := by
  unfold advance
  split
  · rfl
  · exact congrArg (· + 1) same

theorem advanceBy_column
    {first second : Position}
    (same : first.column = second.column)
    (text : Text) :
    (first.advanceBy text).column = (second.advanceBy text).column := by
  induction text generalizing first second with
  | nil => exact same
  | cons code text hypothesis => exact hypothesis (advance_column same code)

end Position

variable {signs : Bool} {first : CodePoint} {rest : Text} {symbol : Symbol} {size : Nat}

/-- A piece without the code point at which a text is cut ends before the cut. -/
theorem exists_before_cut
    {stop : CodePoint} {piece front back : Text}
    (clean : ∀ code ∈ piece, code ≠ stop)
    (shape : piece ++ rest = front ++ stop :: back) :
    ∃ more, front = piece ++ more ∧ rest = more ++ stop :: back := by
  rcases List.append_eq_append_iff.mp shape with ⟨more, inFront, inRest⟩ | ⟨beyond, inPiece, inBack⟩
  · exact ⟨more, inFront, inRest⟩
  · cases beyond with
    | nil => exact ⟨[], by simpa using inPiece.symm, by simpa using inBack.symm⟩
    | cons code beyond =>
      obtain ⟨isStop, _⟩ := List.cons.inj inBack
      refine (clean code ?_ isStop.symm).elim
      rw [inPiece]
      exact List.mem_append_right _ List.mem_cons_self

/-- Whether a text starts with a sign and a number. -/
def Scan.startsSigned : Text → Bool
  | .scalar '+' :: rest | .scalar '-' :: rest => startsUnsigned rest
  | _ => false

theorem Scan.startsSigned_cons (first : CodePoint) (rest : Text) :
    startsSigned (first :: rest) =
      (decide (first = .scalar '+' ∨ first = .scalar '-') && startsUnsigned rest) := by
  unfold startsSigned
  split
  · next same =>
      cases same
      simp
  · next same =>
      cases same
      simp
  · next notPlus notMinus =>
      have unsigned : ¬ (first = .scalar '+' ∨ first = .scalar '-') := by
        rintro (rfl | rfl)
        · exact notPlus rest rfl
        · exact notMinus rest rfl
      rw [decide_eq_false unsigned, Bool.false_and]

/-- Whether signs are allowed matters only where a sign and a number stand. -/
theorem scan_eq_of_unsigned
    (unsigned : Scan.startsSigned (first :: rest) = false)
    (signs others : Bool) :
    scan signs first rest = scan others first rest := by
  have same : Scan.startsNumber signs (first :: rest) =
      Scan.startsNumber others (first :: rest) := by
    rw [Scan.startsSigned_cons] at unsigned
    rw [Scan.startsNumber_eq, Scan.startsNumber_eq]
    split
    · next isSign =>
        rw [decide_eq_true isSign, Bool.true_and] at unsigned
        rw [unsigned, Bool.and_false, Bool.and_false]
    · rfl
  unfold scan
  rw [same]

/-- A plus or a minus that starts no number is an operator. -/
theorem scan_operator
    (isSign : first = .scalar '+' ∨ first = .scalar '-')
    (noNumber : Scan.startsNumber signs (first :: rest) = false) :
    scan signs first rest = Scan.sign first rest := by
  have noWord : first.startsWord = false := by
    rcases isSign with rfl | rfl <;> decide
  unfold scan
  split
  · simp at isSign
  · simp at isSign
  · simp at isSign
  · rw [noNumber, noWord]
    rfl

theorem Scan.sign_operator
    (isSign : first = .scalar '+' ∨ first = .scalar '-')
    (scanned : sign first rest = .token symbol size) :
    ∃ mark, symbol = .mark mark ∧ mark.opensBracket = false ∧ mark.closesBracket = false := by
  unfold sign at scanned
  split at scanned
  all_goals first
    | cases scanned
      exact ⟨_, rfl, rfl, rfl⟩
    | simp at isSign
    | cases scanned

/-- A sign and a number are a literal where signs are allowed, and an operator elsewhere. -/
theorem isLiteral_of_signed
    (signed : Scan.startsSigned (first :: rest) = true)
    (scanned : scan signs first rest = .token symbol size) :
    symbol.isLiteral = signs ∧
      ∀ mark, symbol = .mark mark → mark.opensBracket = false ∧ mark.closesBracket = false := by
  rw [Scan.startsSigned_cons, Bool.and_eq_true_iff, decide_eq_true_iff] at signed
  obtain ⟨isSign, unsigned⟩ := signed
  cases signs with
  | true =>
    have starts : Scan.startsNumber true (first :: rest) = true := by
      rw [Scan.startsNumber_eq, if_pos isSign, unsigned, Bool.true_and]
    rw [scan_of_startsNumber starts] at scanned
    have isLiteral := (Scan.number_token scanned).2.1
    refine ⟨isLiteral, fun mark isMark => ?_⟩
    rw [isMark] at isLiteral
    cases isLiteral
  | false =>
    have noNumber : Scan.startsNumber false (first :: rest) = false := by
      rw [Scan.startsNumber_eq, if_pos isSign, Bool.false_and]
    rw [scan_operator isSign noNumber] at scanned
    obtain ⟨mark, rfl, noBracket⟩ := Scan.sign_operator isSign scanned
    refine ⟨rfl, ?_⟩
    rintro _ ⟨⟩
    exact noBracket

namespace TokenStream

/-- Two token lists have the same symbols, and their lines start in the same columns; the flag
says whether a line starts here. -/
inductive Alike : (starts : Bool) → (tokens others : List Token) → Prop where
  | nil
      {starts : Bool} :
      Alike starts [] []
  | newline
      {starts : Bool} {token other : Token} {tokens others : List Token} :
      token.symbol = .mark .newline →
      other.symbol = .mark .newline →
      Alike true tokens others →
      Alike starts (token :: tokens) (other :: others)
  | visible
      {starts : Bool} {token other : Token} {tokens others : List Token} :
      token.symbol = other.symbol →
      token.symbol ≠ .mark .newline →
      (starts = true → token.span.start.column = other.span.start.column) →
      Alike false tokens others →
      Alike starts (token :: tokens) (other :: others)

/-- Where the line goes on, columns do not matter. -/
theorem Alike.inLine
    {starts : Bool} {tokens others : List Token}
    (alike : Alike starts tokens others) :
    Alike false tokens others := by
  cases alike with
  | nil => exact .nil
  | newline isNewline isOther later => exact .newline isNewline isOther later
  | visible same notNewline _ later => exact .visible same notNewline nofun later

namespace Passage

variable {file : Option Text} {reader last : Reader} {text rest : Text} {tokens : List Token}
  {indents : List (Nat × Nat)}

/-- A passage to the end of a text can be cut at a line feed. -/
theorem cut
    {front back : Text}
    (passage : Passage file reader text tokens indents last rest)
    (atEnd : rest = [])
    (shape : text = front ++ .scalar '\n' :: back) :
    ∃ before records middle, Passage file reader front before records middle [] := by
  induction passage generalizing front with
  | done =>
    subst atEnd
    cases front <;> cases shape
  | lineEnd _ hypothesis =>
    cases front with
    | nil => exact ⟨[], [], _, .done⟩
    | cons code front =>
      cases shape
      obtain ⟨before, records, middle, earlier⟩ := hypothesis atEnd rfl
      exact ⟨_, _, middle, .lineEnd earlier⟩
  | emptyLine _ hypothesis =>
    cases front with
    | nil => exact ⟨[], [], _, .done⟩
    | cons code front =>
      cases shape
      obtain ⟨before, records, middle, earlier⟩ := hypothesis atEnd rfl
      exact ⟨_, _, middle, .emptyLine earlier⟩
  | blank isBlank _ hypothesis =>
    cases front with
    | nil => exact ⟨[], [], _, .done⟩
    | cons code front =>
      cases shape
      obtain ⟨before, records, middle, earlier⟩ := hypothesis atEnd rfl
      exact ⟨_, _, middle, .blank isBlank earlier⟩
  | @comment _ _ _ body _ _ _ _ _ inBody atLineEnd _ hypothesis =>
    cases front with
    | nil => exact ⟨[], [], _, .done⟩
    | cons code front =>
      obtain ⟨rfl, inFront⟩ := List.cons.inj shape
      obtain ⟨more, rfl, rfl⟩ := exists_before_cut inBody inFront
      obtain ⟨before, records, middle, earlier⟩ := hypothesis atEnd rfl
      refine ⟨_, _, middle, .comment inBody (fun code first => ?_) earlier⟩
      cases more with
      | nil => cases first
      | cons => exact atLineEnd code first
  | @token _ _ _ first tail _ _ _ _ _ _ scanned _ hypothesis =>
    cases front with
    | nil => exact ⟨[], [], _, .done⟩
    | cons code front =>
      obtain ⟨rfl, inFront⟩ := List.cons.inj shape
      have inLine := (List.forall_mem_cons.mp (ne_newline_of_mem_scanned scanned)).2
      obtain ⟨more, rfl, rfl⟩ := exists_before_cut inLine inFront
      obtain ⟨before, records, middle, earlier⟩ := hypothesis atEnd rfl
      refine ⟨_, _, middle, .token ?_ earlier⟩
      rw [← List.append_assoc] at scanned
      have alone := scan_replace scanned (by simp) (.cons (by decide)) .nil
      rwa [List.append_nil] at alone

/-- At another place, in the same column if a line starts there, a text is read alike. -/
theorem elsewhere
    (passage : Passage file reader text tokens indents last rest)
    (place : Position)
    (sameColumn : reader.inLine = false → reader.position.column = place.column) :
    ∃ others records final,
      Passage file { reader with position := place } text others records final rest ∧
        Alike (!reader.inLine) tokens others := by
  induction passage generalizing place with
  | done => exact ⟨[], [], _, .done, .nil⟩
  | lineEnd _ hypothesis =>
    obtain ⟨others, records, final, moved, alike⟩ :=
      hypothesis (place.advance (.scalar '\n')) fun _ => rfl
    exact ⟨_, _, final, .lineEnd moved, .newline rfl rfl alike⟩
  | emptyLine _ hypothesis =>
    obtain ⟨others, records, final, moved, alike⟩ :=
      hypothesis (place.advance (.scalar '\n')) fun _ => rfl
    exact ⟨others, records, final, .emptyLine moved, alike⟩
  | @blank _ _ _ code _ _ _ _ _ isBlank _ hypothesis =>
    obtain ⟨others, records, final, moved, alike⟩ :=
      hypothesis (place.advance code) fun starts =>
        Position.advance_column (sameColumn starts) code
    exact ⟨others, records, final, .blank isBlank moved, alike⟩
  | @comment _ _ _ body _ _ _ _ _ inBody atLineEnd _ hypothesis =>
    obtain ⟨others, records, final, moved, alike⟩ :=
      hypothesis (place.advanceBy (.scalar '#' :: body)) fun starts =>
        Position.advanceBy_column (sameColumn starts) _
    exact ⟨others, records, final, .comment inBody atLineEnd moved, alike⟩
  | @token start inLine _ first tail _ _ _ _ _ _ scanned _ hypothesis =>
    obtain ⟨others, records, final, moved, alike⟩ :=
      hypothesis (place.advanceBy (first :: tail)) nofun
    have visible := Token.isVisible_iff.mp
      (pieceToken_isVisible file scanned (first :: tail) start)
    refine ⟨_, _, final, .token scanned moved, .visible rfl visible.1 ?_ alike⟩
    cases inLine with
    | true => exact nofun
    | false => exact fun _ => sameColumn rfl

/-- What is read at the start of a line is read alike where a line goes on, unless a number with
a sign comes first and no sign is allowed there.  A newline may come before it, which ends the
line that goes on. -/
theorem continued
    (passage : Passage file reader text tokens indents last rest)
    (starts : reader.inLine = false)
    (signsAllowed : reader.signAllowed = true)
    (place : Position)
    (inLine signs : Bool)
    (unsigned : signs = false → Scan.startsSigned (text.dropWhile isBlank) = false) :
    ∃ newlines others records final,
      Passage file ⟨place, 0, inLine, signs⟩ text (newlines ++ others) records final rest ∧
        (∀ token ∈ newlines, token.symbol = .mark .newline) ∧ Alike false tokens others := by
  induction passage generalizing place with
  | done => exact ⟨[], [], [], _, .done, List.forall_mem_nil _, .nil⟩
  | lineEnd => cases starts
  | emptyLine later =>
    obtain ⟨others, records, final, moved, alike⟩ :=
      later.elsewhere (place.advance (.scalar '\n')) fun _ => rfl
    cases inLine with
    | true =>
      exact ⟨[newlineToken file place], others, records, final, .lineEnd moved,
        List.forall_mem_singleton.mpr rfl, alike.inLine⟩
    | false =>
      exact ⟨[], others, records, final, .emptyLine moved, List.forall_mem_nil _, alike.inLine⟩
  | @blank _ _ _ code _ _ _ _ _ isBlank _ hypothesis =>
    rw [List.dropWhile_cons_of_pos isBlank] at unsigned
    obtain ⟨newlines, others, records, final, moved, areNewlines, alike⟩ :=
      hypothesis starts signsAllowed (place.advance code) unsigned
    exact ⟨newlines, others, records, final, .blank isBlank moved, areNewlines, alike⟩
  | @comment _ _ _ body text _ _ _ _ inBody atLineEnd _ hypothesis =>
    have atFeed : Scan.startsSigned (text.dropWhile isBlank) = false := by
      cases text with
      | nil => rfl
      | cons code text =>
        cases atLineEnd code rfl
        rfl
    obtain ⟨newlines, others, records, final, moved, areNewlines, alike⟩ :=
      hypothesis starts signsAllowed (place.advanceBy (.scalar '#' :: body))
        fun _ => atFeed
    exact ⟨newlines, others, records, final, .comment inBody atLineEnd moved, areNewlines, alike⟩
  | @token start _ _ first tail text _ symbol _ _ _ scanned later =>
    cases signsAllowed
    obtain ⟨others, records, final, moved, alike⟩ :=
      later.elsewhere (place.advanceBy (first :: tail)) nofun
    have notBlank := (visible_of_scanned scanned).2.1
    have visible := Token.isVisible_iff.mp
      (pieceToken_isVisible file scanned (first :: tail) start)
    have rescanned : scan signs first (tail ++ text) = .token symbol (tail.length + 1) := by
      cases signs with
      | true => exact scanned
      | false =>
        rw [List.dropWhile_cons_of_neg (by simp [notBlank])] at unsigned
        rw [scan_eq_of_unsigned (unsigned rfl) false true, scanned]
    exact ⟨[], _, _, final, .token rescanned moved, List.forall_mem_nil _,
      .visible rfl visible.1 nofun alike⟩

/-- Where a number with a sign comes first, the first token is a literal exactly if signs are
allowed. -/
theorem first_of_signed
    (passage : Passage file reader text tokens indents last rest)
    (atEnd : rest = [])
    (signed : Scan.startsSigned (text.dropWhile isBlank) = true) :
    ∃ token later, tokens = token :: later ∧ token.isVisible = true ∧
      token.symbol.isLiteral = reader.signAllowed ∧
      ∀ mark, token.symbol = .mark mark →
        mark.opensBracket = false ∧ mark.closesBracket = false := by
  induction passage with
  | done =>
    subst atEnd
    cases signed
  | lineEnd => cases signed
  | emptyLine => cases signed
  | blank isBlank _ hypothesis =>
    rw [List.dropWhile_cons_of_pos isBlank] at signed
    exact hypothesis atEnd signed
  | comment => cases signed
  | @token start _ _ first tail _ _ _ _ _ _ scanned =>
    have notBlank := (visible_of_scanned scanned).2.1
    rw [List.dropWhile_cons_of_neg (by simp [notBlank])] at signed
    exact ⟨_, _, rfl, pieceToken_isVisible file scanned (first :: tail) start,
      isLiteral_of_signed signed scanned⟩

end Passage

end TokenStream

end Offside
