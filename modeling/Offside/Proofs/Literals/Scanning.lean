import Offside.Proofs.Literals.Literal
import Offside.Token.Stream

namespace Offside

/-!
# Scanning literals

Each scalar literal and each sign around it is scanned as one token, whatever stands after
it, as long as that cannot prolong a number or a word.
-/

variable {rest : Text} {code first : CodePoint} {size : Nat}

/-- The signs that may follow a literal. -/
def closingSigns : List Char :=
  [',', ':', ']', '\x7d']

/-- A text that cannot prolong a literal: it is empty or starts with a closing sign. -/
inductive Stops : Text → Prop where
  | nil : Stops []
  | cons {char : Char} {rest : Text} : char ∈ closingSigns → Stops (.scalar char :: rest)

namespace Stops

theorem not_head
    (stops : Stops rest)
    {test : CodePoint → Bool}
    (refused : closingSigns.any (fun char => test (.scalar char)) = false) :
    rest.head?.any test = false := by
  cases stops with
  | nil => rfl
  | cons member => exact Bool.eq_false_iff.mpr (List.any_eq_false.mp refused _ member)

theorem takeWhile_append
    (stops : Stops rest)
    {test : CodePoint → Bool}
    (refused : closingSigns.any (fun char => test (.scalar char)) = false)
    {part : Text}
    (accepted : ∀ code ∈ part, test code = true) :
    (part ++ rest).takeWhile test = part := by
  rw [List.takeWhile_append_of_pos accepted]
  cases stops with
  | nil => simp
  | cons member => simp [Bool.eq_false_iff.mpr (List.any_eq_false.mp refused _ member)]

end Stops

namespace Text

theorem isDigit_of_mem_ofNat {number : Nat} (member : code ∈ ofNat number) :
    code.isDigit = true := by
  obtain ⟨char, inDigits, rfl⟩ := List.mem_map.mp member
  exact Nat.isDigit_of_mem_toDigits (by decide) (by decide) inDigits

theorem ofNat_ne_nil (number : Nat) : ofNat number ≠ [] := by
  simp [ofNat, ofChars]

theorem digitsValue_ofNat (number : Nat) : digitsValue (ofNat number) = number := by
  unfold digitsValue ofNat ofChars
  rw [List.foldl_map]
  exact Nat.ofDigitChars_ten_toDigits

theorem length_ofNat_le {number : Nat} (small : number < 10000000000000000000) :
    (ofNat number).length ≤ Abort.mostDigits := by
  unfold ofNat ofChars
  rw [List.length_map]
  have short : (Nat.toDigits 10 number).length ≤ 20 :=
    (Nat.length_toDigits_le_iff (by decide) (by decide)).mpr (by omega)
  exact Nat.le_trans short (by decide)

end Text

namespace Scan

variable {digits : Text}

theorem signSize_digits
    (nonempty : digits ≠ [])
    (allDigits : ∀ code ∈ digits, code.isDigit = true) :
    signSize (digits ++ rest) = 0 := by
  obtain ⟨first, others, rfl⟩ := List.exists_cons_of_ne_nil nonempty
  have firstDigit := allDigits first (List.mem_cons_self ..)
  rw [List.cons_append]
  unfold signSize
  split
  · simp_all [CodePoint.isDigit, Char.isDigit]
  · simp_all [CodePoint.isDigit, Char.isDigit]
  · rfl

/-- A sign or none, and digits that nothing prolongs, are read as an integer. -/
theorem number_whole
    {sign : Text}
    (signed : sign = [] ∨ sign = [.scalar '+'] ∨ sign = [.scalar '-'])
    (nonempty : digits ≠ [])
    (allDigits : ∀ code ∈ digits, code.isDigit = true)
    (ended : rest.head?.any (fun code => code.isDigit || spoilsNumber code) = false) :
    number (sign ++ (digits ++ rest)) =
      integer (sign == [.scalar '-']) digits (sign ++ digits) := by
  have noDigits : rest.takeWhile (·.isDigit) = [] := by
    cases rest with
    | nil => rfl
    | cons first others =>
      exact List.takeWhile_cons_of_neg (by simp_all)
  have run : (digits ++ rest).takeWhile (·.isDigit) = digits := by
    rw [List.takeWhile_append_of_pos allDigits, noDigits, List.append_nil]
  have spoiled : rest.head?.any spoilsNumber = false := by
    cases rest <;> simp_all
  have noFraction : fraction? rest = none := by
    unfold fraction?
    split
    · simp [spoilsNumber] at spoiled
    · rfl
  have size : signSize (sign ++ (digits ++ rest)) = sign.length := by
    rcases signed with rfl | rfl | rfl
    · rw [List.nil_append]
      exact signSize_digits nonempty allDigits
    · rfl
    · rfl
  have negative :
      ((sign ++ (digits ++ rest)).head? == some (.scalar '-')) = (sign == [.scalar '-']) := by
    rcases signed with rfl | rfl | rfl
    · obtain ⟨first, others, rfl⟩ := List.exists_cons_of_ne_nil nonempty
      have firstDigit := allDigits first (List.mem_cons_self ..)
      have notMinus : first ≠ .scalar '-' := by
        rintro rfl
        cases firstDigit
      simpa using notMinus
    · rfl
    · rfl
  have afterSign : (sign ++ (digits ++ rest)).drop sign.length = digits ++ rest :=
    List.drop_left
  have afterDigits :
      (sign ++ (digits ++ rest)).drop (sign.length + digits.length) = rest := by
    rw [← List.append_assoc, ← List.length_append]
    exact List.drop_left
  have lexeme :
      (sign ++ (digits ++ rest)).take (sign.length + digits.length) = sign ++ digits := by
    rw [← List.append_assoc, ← List.length_append]
    exact List.take_left
  unfold number
  simp only [size, negative, afterSign, run, afterDigits, noFraction, Option.map_none,
    Option.getD_none, Nat.add_zero, spoiled, lexeme]
  rfl

/-- A minus sign or none, and digits before a stop, are read as an integer. -/
theorem number_signed
    {sign : Text}
    (signed : sign = [] ∨ sign = [.scalar '-'])
    (nonempty : digits ≠ [])
    (allDigits : ∀ code ∈ digits, code.isDigit = true)
    (stops : Stops rest) :
    number (sign ++ (digits ++ rest)) = integer (!sign.isEmpty) digits (sign ++ digits) := by
  have ended : rest.head?.any (fun code => code.isDigit || spoilsNumber code) = false :=
    stops.not_head (by decide)
  rcases signed with rfl | rfl
  · exact number_whole (.inl rfl) nonempty allDigits ended
  · exact number_whole (.inr (.inr rfl)) nonempty allDigits ended

theorem integer_ofNat
    {negative : Bool} {magnitude : Nat} {number : Int}
    (value : (if negative then -(magnitude : Int) else magnitude) = number)
    (least : leastInteger ≤ number)
    (greatest : number ≤ greatestInteger)
    (lexeme : Text) :
    integer negative (Text.ofNat magnitude) lexeme = .token (.int number) lexeme.length := by
  have small : magnitude < 10000000000000000000 := by
    unfold leastInteger at least
    unfold greatestInteger at greatest
    split at value <;> omega
  unfold integer
  rw [if_neg (Nat.not_lt.mpr (Text.length_ofNat_le small)), Text.digitsValue_ofNat]
  simp only [value]
  rw [if_pos ⟨least, greatest⟩]

theorem startsUnsigned_of_digit (digit : first.isDigit = true) (rest : Text) :
    startsUnsigned (first :: rest) = true := by
  unfold startsUnsigned
  split <;> simp_all [CodePoint.isDigit, Char.isDigit]

theorem startsNumber_of_digit (digit : first.isDigit = true) (signAllowed : Bool) (rest : Text) :
    startsNumber signAllowed (first :: rest) = true := by
  unfold startsNumber
  split
  · simp_all [CodePoint.isDigit, Char.isDigit]
  · simp_all [CodePoint.isDigit, Char.isDigit]
  · exact startsUnsigned_of_digit digit rest

end Scan

/-- A code point at which a number may start is no quote and no letter. -/
theorem scan_of_startsNumber
    {signAllowed : Bool}
    (starts : Scan.startsNumber signAllowed (first :: rest) = true) :
    scan signAllowed first rest = Scan.number (first :: rest) := by
  unfold scan
  split
  · simp [Scan.startsNumber, Scan.startsUnsigned, CodePoint.isDigit] at starts
  · simp [Scan.startsNumber, Scan.startsUnsigned, CodePoint.isDigit] at starts
  · simp [Scan.startsNumber, Scan.startsUnsigned, CodePoint.isDigit] at starts
  · rw [if_pos starts]

/-- The text of an integer is scanned as that integer, where a sign is allowed. -/
theorem scan_ofInt
    {number : Int}
    (least : Scan.leastInteger ≤ number)
    (greatest : number ≤ Scan.greatestInteger)
    (stops : Stops rest) :
    ∃ first tail, Text.ofInt number = first :: tail ∧
      scan true first (tail ++ rest) = .token (.int number) (tail.length + 1) := by
  have digits (magnitude : Nat) : ∃ first tail, Text.ofNat magnitude = first :: tail ∧
      first.isDigit = true := by
    obtain ⟨first, tail, shape⟩ := List.exists_cons_of_ne_nil (Text.ofNat_ne_nil magnitude)
    have member : first ∈ Text.ofNat magnitude := shape ▸ List.mem_cons_self ..
    exact ⟨first, tail, shape, Text.isDigit_of_mem_ofNat member⟩
  cases number with
  | ofNat magnitude =>
    obtain ⟨first, tail, shape, firstDigit⟩ := digits magnitude
    refine ⟨first, tail, shape, ?_⟩
    rw [scan_of_startsNumber (Scan.startsNumber_of_digit firstDigit true _),
      ← List.cons_append, ← shape]
    have signed := Scan.number_signed (.inl rfl) (Text.ofNat_ne_nil magnitude)
      (fun _ => Text.isDigit_of_mem_ofNat) stops
    have value : (if (false : Bool) then -(magnitude : Int) else magnitude) = .ofNat magnitude :=
      rfl
    refine signed.trans ((Scan.integer_ofNat value least greatest _).trans ?_)
    rw [List.nil_append, shape, List.length_cons]
  | negSucc magnitude =>
    obtain ⟨first, tail, shape, firstDigit⟩ := digits (magnitude + 1)
    refine ⟨.scalar '-', Text.ofNat (magnitude + 1), rfl, ?_⟩
    have starts : Scan.startsNumber true
        (.scalar '-' :: (Text.ofNat (magnitude + 1) ++ rest)) = true := by
      rw [shape]
      exact Scan.startsUnsigned_of_digit firstDigit _
    have signed := Scan.number_signed (.inr rfl) (Text.ofNat_ne_nil (magnitude + 1))
      (fun _ => Text.isDigit_of_mem_ofNat) stops
    have value :
        (if (true : Bool) then -((magnitude + 1 : Nat) : Int) else (magnitude + 1 : Nat)) =
          .negSucc magnitude :=
      rfl
    rw [scan_of_startsNumber starts]
    exact signed.trans (Scan.integer_ofNat value least greatest _)

/-- A code point is quoted by an escape that denotes it, or stands for itself. -/
theorem Text.quotedCode_cases
    {quote : Char}
    (isQuote : quote = '"' ∨ quote = '\'')
    (code : CodePoint) :
    (∃ letter, Text.quotedCode (.scalar quote) code = [.scalar '\\', letter] ∧
      ∀ rest, Scan.escape (letter :: rest) = .ok (code, 1)) ∨
    (Text.quotedCode (.scalar quote) code = [code] ∧
      code ≠ .scalar quote ∧ code ≠ .scalar '\n' ∧ code ≠ .scalar '\\') := by
  unfold Text.quotedCode
  by_cases quoted : code = .scalar quote
  · rw [if_pos quoted, quoted]
    refine .inl ⟨_, rfl, ?_⟩
    rcases isQuote with rfl | rfl <;> exact fun _ => rfl
  rw [if_neg quoted]
  split
  · exact .inl ⟨_, rfl, fun _ => rfl⟩
  · exact .inl ⟨_, rfl, fun _ => rfl⟩
  · exact .inl ⟨_, rfl, fun _ => rfl⟩
  · exact .inl ⟨_, rfl, fun _ => rfl⟩
  · exact .inl ⟨_, rfl, fun _ => rfl⟩
  · next notNewline _ _ notBackslash _ =>
      exact .inr ⟨rfl, quoted, notNewline, notBackslash⟩

namespace Scan

theorem stringBody_escaped
    {letter : CodePoint} {content : Text} {total : Nat}
    (denotes : ∀ rest, escape (letter :: rest) = .ok (code, 1))
    (later : stringBody (size + 2) 0 rest = .ok (content, total)) :
    stringBody size 0 (.scalar '\\' :: letter :: rest) = .ok (code :: content, total) := by
  simp [stringBody, denotes, later]

theorem stringBody_plain
    {content : Text} {total : Nat}
    (notQuote : code ≠ .scalar '"')
    (notNewline : code ≠ .scalar '\n')
    (notBackslash : code ≠ .scalar '\\')
    (later : stringBody (size + 1) 0 rest = .ok (content, total)) :
    stringBody size 0 (code :: rest) = .ok (code :: content, total) := by
  simp [stringBody, notQuote, notNewline, notBackslash, later]

/-- The quoted content of a string is read back. -/
theorem stringBody_quoted (content rest : Text) (size : Nat) :
    stringBody size 0
        (content.flatMap (Text.quotedCode (.scalar '"')) ++ .scalar '"' :: rest) =
      .ok (content, size + (content.flatMap (Text.quotedCode (.scalar '"'))).length + 1) := by
  induction content generalizing size with
  | nil => rfl
  | cons code content hypothesis =>
    rw [List.flatMap_cons, List.length_append, List.append_assoc]
    rcases Text.quotedCode_cases (.inl rfl) code with
      ⟨letter, shape, denotes⟩ | ⟨shape, notQuote, notNewline, notBackslash⟩
    · have later := hypothesis (size + 2)
      rw [Nat.add_assoc size] at later
      rw [shape]
      exact stringBody_escaped denotes later
    · have later := hypothesis (size + 1)
      rw [Nat.add_assoc size] at later
      rw [shape]
      exact stringBody_plain notQuote notNewline notBackslash later

end Scan

theorem scan_string (signAllowed : Bool) (content rest : Text) :
    ∃ tail, Text.quoted (.scalar '"') content = .scalar '"' :: tail ∧
      scan signAllowed (.scalar '"') (tail ++ rest) =
        .token (.string content) (tail.length + 1) := by
  refine ⟨_, rfl, ?_⟩
  rw [List.append_assoc, List.singleton_append]
  show Scan.string _ = _
  unfold Scan.string
  rw [Scan.stringBody_quoted, List.length_append, List.length_singleton, Nat.add_comm 1]

theorem scan_char (signAllowed : Bool) (code : CodePoint) (rest : Text) :
    ∃ tail, Text.quoted (.scalar '\'') [code] = .scalar '\'' :: tail ∧
      scan signAllowed (.scalar '\'') (tail ++ rest) =
        .token (.char code) (tail.length + 1) := by
  refine ⟨_, rfl, ?_⟩
  rw [List.flatMap_singleton, List.append_assoc, List.singleton_append]
  show Scan.character (.scalar '\'' :: _) = _
  unfold Scan.character
  rcases Text.quotedCode_cases (.inr rfl) code with
    ⟨letter, shape, denotes⟩ | ⟨shape, notQuote, notNewline, notBackslash⟩
  · simp [shape, denotes, Scan.characterEnd]
  · simp [shape, Scan.characterEnd]

/-- What starts with neither a quote nor a number is a word or a sign. -/
theorem scan_plain
    {first : Char}
    (plain : first ∉ ['"', '\'', 'r', '+', '-', '.'])
    (notDigit : first.isDigit = false)
    (signAllowed : Bool)
    (rest : Text) :
    scan signAllowed (.scalar first) rest =
      if (CodePoint.scalar first).startsWord then Scan.word (.scalar first :: rest)
      else Scan.sign (.scalar first) rest := by
  simp only [List.mem_cons, List.not_mem_nil, or_false, not_or] at plain
  obtain ⟨notDouble, notSingle, notRaw, notPlus, notMinus, notPoint⟩ := plain
  have notNumber : Scan.startsNumber signAllowed (.scalar first :: rest) = false := by
    unfold Scan.startsNumber
    split
    · next shape =>
        cases shape
        exact (notPlus rfl).elim
    · next shape =>
        cases shape
        exact (notMinus rfl).elim
    · unfold Scan.startsUnsigned
      split
      · next shape =>
          cases shape
          exact (notPoint rfl).elim
      · next shape =>
          cases shape
          exact notDigit
      · rfl
  unfold scan
  split
  · next shape =>
      cases shape
      exact (notDouble rfl).elim
  · next shape =>
      cases shape
      exact (notRaw rfl).elim
  · next shape =>
      cases shape
      exact (notSingle rfl).elim
  · rw [if_neg (Bool.eq_false_iff.mp notNumber)]

theorem Scan.word_append
    {letters : Text}
    (stops : Stops rest)
    (accepted : ∀ code ∈ letters, code.continuesWord = true) :
    Scan.word (letters ++ rest) = .token (Scan.wordSymbol letters) letters.length := by
  unfold Scan.word
  rw [stops.takeWhile_append (by decide) accepted]

theorem scan_bool (signAllowed truth : Bool) (stops : Stops rest) :
    ∃ first tail, (if truth then ("true" : Text) else ("false" : Text)) = first :: tail ∧
      scan signAllowed first (tail ++ rest) = .token (.bool truth) (tail.length + 1) := by
  cases truth with
  | true =>
    have accepted : ∀ code ∈ Text.ofChars ['t', 'r', 'u', 'e'], code.continuesWord = true := by
      decide
    refine ⟨.scalar 't', Text.ofChars ['r', 'u', 'e'], rfl, ?_⟩
    rw [scan_plain (by decide) rfl, if_pos (by decide)]
    exact Scan.word_append stops accepted
  | false =>
    have accepted :
        ∀ code ∈ Text.ofChars ['f', 'a', 'l', 's', 'e'], code.continuesWord = true := by
      decide
    refine ⟨.scalar 'f', Text.ofChars ['a', 'l', 's', 'e'], rfl, ?_⟩
    rw [scan_plain (by decide) rfl, if_pos (by decide)]
    exact Scan.word_append stops accepted

/-- The signs around and between literals, with their marks. -/
def literalSigns : List (Char × Mark) :=
  [('[', .openBracket), (']', .closeBracket), ('\x7b', .openBrace), ('\x7d', .closeBrace),
   (',', .comma), (':', .colon)]

theorem scan_sign
    {char : Char} {mark : Mark}
    (isSign : (char, mark) ∈ literalSigns)
    (signAllowed : Bool)
    (rest : Text) :
    scan signAllowed (.scalar char) rest = .token (.mark mark) 1 := by
  simp only [literalSigns, List.mem_cons, Prod.mk.injEq, List.not_mem_nil, or_false] at isSign
  rcases isSign with ⟨rfl, rfl⟩ | ⟨rfl, rfl⟩ | ⟨rfl, rfl⟩ | ⟨rfl, rfl⟩ | ⟨rfl, rfl⟩ | ⟨rfl, rfl⟩
  all_goals
    rw [scan_plain (by decide) rfl, if_neg (by decide)]
    rfl

/-- A token never starts with a line end, a blank or a comment sign. -/
theorem visible_of_scanned
    {signAllowed : Bool} {symbol : Symbol}
    (scanned : scan signAllowed first rest = .token symbol size) :
    first ≠ .scalar '\n' ∧ TokenStream.isBlank first = false ∧ first ≠ .scalar '#' := by
  have hidden (char : Char) (member : char ∈ ['\n', ' ', '\t', '\r', '#']) :
      first ≠ .scalar char := by
    rintro rfl
    simp only [List.mem_cons, List.not_mem_nil, or_false] at member
    rcases member with rfl | rfl | rfl | rfl | rfl
    all_goals
      rw [scan_plain (by decide) rfl, if_neg (by decide)] at scanned
      cases scanned
  refine ⟨hidden '\n' (by decide), ?_, hidden '#' (by decide)⟩
  simp [TokenStream.isBlank, hidden ' ' (by decide), hidden '\t' (by decide),
    hidden '\r' (by decide)]

end Offside
