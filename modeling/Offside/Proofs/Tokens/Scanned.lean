import Offside.Proofs.Literals.Scanning

namespace Offside

/-!
# What a scanned token covers

A scanned token covers a non-empty piece of its line, and what it is does not depend on the
text after that piece as long as a parting sign comes next: a blank, a line end, a comment,
a bracket, a comma or a colon.
-/

variable {symbol : Symbol} {size : Nat} {signAllowed : Bool} {first : CodePoint} {rest after : Text}

/-- The signs that prolong no token. -/
def partingSigns : List Char :=
  ['\n', ' ', '\t', '\r', '#', ',', ':', '(', ')', '[', ']', '\x7b', '\x7d']

/-- A text that prolongs no token: it is empty or starts with a parting sign. -/
inductive Parts : Text → Prop where
  | nil : Parts []
  | cons {char : Char} {rest : Text} : char ∈ partingSigns → Parts (.scalar char :: rest)

namespace Parts

variable {more : Text}

theorem not_head
    (parts : Parts more)
    {test : CodePoint → Bool}
    (refused : partingSigns.any (fun char => test (.scalar char)) = false) :
    more.head?.any test = false := by
  cases parts with
  | nil => rfl
  | cons member => exact Bool.eq_false_iff.mpr (List.any_eq_false.mp refused _ member)

theorem head?_ne (parts : Parts more) {char : Char} (other : char ∉ partingSigns) :
    more.head? ≠ some (.scalar char) := by
  cases parts with
  | nil => simp
  | cons member =>
    intro same
    cases same
    exact other member

theorem takeWhile_append
    (parts : Parts more)
    (test : CodePoint → Bool)
    (refused : partingSigns.any (fun char => test (.scalar char)) = false)
    (text : Text) :
    (text ++ more).takeWhile test = text.takeWhile test := by
  have nothing : more.takeWhile test = [] := by
    cases parts with
    | nil => rfl
    | cons member =>
      exact List.takeWhile_cons_of_neg (List.any_eq_false.mp refused _ member)
  rw [List.takeWhile_append, nothing, List.append_nil]
  split
  · next whole => exact ((List.takeWhile_sublist test).eq_of_length whole).symm
  · rfl

theorem head?_any_append
    (parts : Parts more)
    (test : CodePoint → Bool)
    (refused : partingSigns.any (fun char => test (.scalar char)) = false)
    (text : Text) :
    (text ++ more).head?.any test = text.head?.any test := by
  cases text with
  | nil => exact parts.not_head refused
  | cons => rfl

end Parts

namespace Scan

variable {text more : Text}

theorem startsUnsigned_eq (text : Text) :
    startsUnsigned text =
      (text.head?.any (·.isDigit) ||
        (text.head? == some (.scalar '.') && text.tail.head?.any (·.isDigit))) := by
  unfold startsUnsigned
  split
  · rfl
  · next code rest notPoint =>
      by_cases point : code = .scalar '.'
      · subst point
        cases rest with
        | nil => rfl
        | cons next rest => exact (notPoint next rest rfl rfl).elim
      · simp [point]
  · rfl

theorem startsNumber_eq (signAllowed : Bool) (first : CodePoint) (rest : Text) :
    startsNumber signAllowed (first :: rest) =
      if first = .scalar '+' ∨ first = .scalar '-' then signAllowed && startsUnsigned rest
      else startsUnsigned (first :: rest) := by
  unfold startsNumber
  split
  · next same =>
      cases same
      simp
  · next same =>
      cases same
      simp
  · next notPlus notMinus =>
      rw [if_neg]
      rintro (rfl | rfl)
      · exact notPlus rest rfl
      · exact notMinus rest rfl

theorem signSize_eq (text : Text) :
    signSize text =
      if text.head? = some (.scalar '+') ∨ text.head? = some (.scalar '-') then 1 else 0 := by
  unfold signSize
  split
  · rfl
  · rfl
  · next notPlus notMinus =>
      rw [if_neg]
      cases text with
      | nil => simp
      | cons first rest =>
        rintro (same | same) <;> cases same
        · exact notPlus rest rfl
        · exact notMinus rest rfl

theorem fraction?_eq (text : Text) :
    fraction? text =
      if text.head? = some (.scalar '.') then some (text.tail.takeWhile (·.isDigit)) else none := by
  unfold fraction?
  split
  · rfl
  · next notPoint =>
      rw [if_neg]
      cases text with
      | nil => simp
      | cons first rest =>
        intro same
        cases same
        exact notPoint rest rfl

theorem startsUnsigned_append (parts : Parts more) (text : Text) :
    startsUnsigned (text ++ more) = startsUnsigned text := by
  cases text with
  | nil =>
    have noDigit : more.head?.any (·.isDigit) = false := parts.not_head (by decide)
    have noPoint : more.head? ≠ some (.scalar '.') := parts.head?_ne (by decide)
    rw [List.nil_append, startsUnsigned_eq, noDigit, beq_false_of_ne noPoint]
    rfl
  | cons first text =>
    rw [startsUnsigned_eq, startsUnsigned_eq, List.cons_append, List.tail_cons, List.tail_cons,
      parts.head?_any_append _ (by decide)]
    rfl

theorem startsNumber_append
    (parts : Parts more)
    (signAllowed : Bool)
    (first : CodePoint)
    (rest : Text) :
    startsNumber signAllowed (first :: (rest ++ more)) =
      startsNumber signAllowed (first :: rest) := by
  rw [startsNumber_eq, startsNumber_eq, startsUnsigned_append parts, ← List.cons_append,
    startsUnsigned_append parts]

theorem fraction?_append (parts : Parts more) (text : Text) :
    fraction? (text ++ more) = fraction? text := by
  rw [fraction?_eq, fraction?_eq]
  cases text with
  | nil =>
    rw [List.nil_append, if_neg (parts.head?_ne (by decide))]
    rfl
  | cons first text =>
    rw [List.cons_append, List.tail_cons, List.tail_cons, parts.takeWhile_append _ (by decide)]
    rfl

/-- The size of the number at the head of a text. -/
def numberSize (text : Text) : Nat :=
  let digits := (text.drop (signSize text)).takeWhile (·.isDigit)
  let wholeSize := signSize text + digits.length
  wholeSize + ((fraction? (text.drop wholeSize)).map (·.length + 1)).getD 0

theorem signSize_le (text : Text) : signSize text ≤ text.length := by
  rw [signSize_eq]
  split
  · next signed =>
      cases text with
      | nil => simp at signed
      | cons => simp
  · exact Nat.zero_le _

theorem fractionSize_le (text : Text) :
    ((fraction? text).map (·.length + 1)).getD 0 ≤ text.length := by
  rw [fraction?_eq]
  split
  · next pointed =>
      cases text with
      | nil => simp at pointed
      | cons first rest =>
        exact Nat.succ_le_succ
          (List.takeWhile_sublist fun code : CodePoint => code.isDigit).length_le
  · exact Nat.zero_le _

theorem wholeSize_le (text : Text) :
    signSize text + ((text.drop (signSize text)).takeWhile (·.isDigit)).length ≤ text.length := by
  have sign := signSize_le text
  have digits :=
    (List.takeWhile_sublist (l := text.drop (signSize text)) fun code => code.isDigit).length_le
  rw [List.length_drop] at digits
  omega

theorem numberSize_le (text : Text) : numberSize text ≤ text.length := by
  have whole := wholeSize_le text
  have fraction := fractionSize_le
    (text.drop (signSize text + ((text.drop (signSize text)).takeWhile (·.isDigit)).length))
  rw [List.length_drop] at fraction
  unfold numberSize
  simp only
  omega

theorem number_eq (text : Text) :
    number text =
      let digits := (text.drop (signSize text)).takeWhile (·.isDigit)
      let rest := text.drop (numberSize text)
      if rest.head?.any spoilsNumber then
        let tail := rest.takeWhile fun code => code.continuesWord || code == .scalar '.'
        .misread ⟨.malformedNumber (text.take (numberSize text + tail.length)), 0,
          numberSize text + tail.length⟩
      else
        match fraction? (text.drop (signSize text + digits.length)) with
        | some fraction =>
          decimal (text.head? == some (.scalar '-')) digits fraction
            (text.take (numberSize text))
        | none =>
          integer (text.head? == some (.scalar '-')) digits (text.take (numberSize text)) :=
  rfl

/-- No line ends inside a number. -/
theorem ne_newline_of_mem_number {code : CodePoint} (member : code ∈ text.take (numberSize text)) :
    code ≠ .scalar '\n' := by
  have digit {part : Text} (inside : code ∈ part.take (part.takeWhile (·.isDigit)).length) :
      code ≠ .scalar '\n' := by
    have isStart : part.takeWhile (·.isDigit) <+: part := List.takeWhile_prefix _
    rw [← List.prefix_iff_eq_take.mp isStart] at inside
    rintro rfl
    exact Bool.false_ne_true (List.all_eq_true.mp List.all_takeWhile _ inside)
  unfold numberSize at member
  simp only [List.take_add, List.mem_append] at member
  rcases member with (inSign | inDigits) | inFraction
  · rw [signSize_eq] at inSign
    split at inSign
    · next signed =>
        cases text with
        | nil => simp at inSign
        | cons first rest =>
          simp only [List.head?_cons, Option.some.injEq] at signed
          simp only [List.take_succ_cons, List.take_zero, List.mem_singleton] at inSign
          rcases signed with rfl | rfl <;> simp [inSign]
    · simp at inSign
  · exact digit inDigits
  · revert inFraction
    generalize text.drop _ = part
    rw [fraction?_eq]
    split
    · next pointed =>
        cases part with
        | nil => simp
        | cons first rest =>
          cases Option.some.inj pointed
          simp only [Option.map_some, Option.getD_some, List.take_succ_cons, List.tail_cons,
            List.mem_cons]
          rintro (rfl | inDigits)
          · simp
          · exact digit inDigits
    · simp

/-- An integer is one that a program can have. -/
def InRange (value : Int) : Prop :=
  leastInteger ≤ value ∧ value ≤ greatestInteger

theorem integer_token
    {negative : Bool} {digits lexeme : Text}
    (scanned : integer negative digits lexeme = .token symbol size) :
    size = lexeme.length ∧ ∃ value, symbol = .int value ∧ InRange value := by
  unfold integer at scanned
  split at scanned
  · cases scanned
  · simp only at scanned
    generalize (if negative = true then _ else _ : Int) = value at scanned
    split at scanned
    · next inRange =>
        cases scanned
        exact ⟨rfl, value, rfl, inRange⟩
    · cases scanned

theorem number_token (scanned : number text = .token symbol size) :
    size = numberSize text ∧ symbol.isLiteral = true ∧
      ∀ value, symbol = .int value → InRange value := by
  have taken : (text.take (numberSize text)).length = numberSize text :=
    List.length_take_of_le (numberSize_le text)
  rw [number_eq] at scanned
  simp only at scanned
  split at scanned
  · cases scanned
  · split at scanned
    · unfold decimal at scanned
      cases scanned
      exact ⟨taken, rfl, fun _ isInt => Symbol.noConfusion isInt⟩
    · obtain ⟨rfl, value, rfl, inRange⟩ := integer_token scanned
      refine ⟨taken, rfl, ?_⟩
      rintro _ ⟨⟩
      exact inRange

theorem numberSize_pos (starts : startsNumber signAllowed (first :: rest) = true) :
    0 < numberSize (first :: rest) := by
  rw [startsNumber_eq] at starts
  unfold numberSize
  simp only
  split at starts
  · next signed =>
      have size : signSize (first :: rest) = 1 := by
        rw [signSize_eq, if_pos (by simpa using signed)]
      omega
  · next unsigned =>
      have size : signSize (first :: rest) = 0 := by
        rw [signSize_eq, if_neg (by simpa using unsigned)]
      rw [startsUnsigned_eq] at starts
      rw [size, List.drop_zero]
      by_cases digit : first.isDigit = true
      · rw [List.takeWhile_cons_of_pos digit, List.length_cons]
        omega
      · rw [List.takeWhile_cons_of_neg digit, fraction?_eq]
        simp_all

theorem number_append (parts : Parts more) (first : CodePoint) (rest : Text) :
    number (first :: (rest ++ more)) = number (first :: rest) := by
  have dropped {size : Nat} (inside : size ≤ (first :: rest).length) :
      (first :: (rest ++ more)).drop size = (first :: rest).drop size ++ more :=
    List.drop_append_of_le_length inside
  have taken {size : Nat} (inside : size ≤ (first :: rest).length) :
      (first :: (rest ++ more)).take size = (first :: rest).take size :=
    List.take_append_of_le_length inside
  have sign : signSize (first :: (rest ++ more)) = signSize (first :: rest) := by
    rw [signSize_eq, signSize_eq]
    rfl
  have digits : ((first :: (rest ++ more)).drop (signSize (first :: rest))).takeWhile (·.isDigit) =
      ((first :: rest).drop (signSize (first :: rest))).takeWhile (·.isDigit) := by
    rw [dropped (signSize_le _), parts.takeWhile_append _ (by decide)]
  have fraction : fraction? ((first :: (rest ++ more)).drop (signSize (first :: rest) +
        (((first :: rest).drop (signSize (first :: rest))).takeWhile (·.isDigit)).length)) =
      fraction? ((first :: rest).drop (signSize (first :: rest) +
        (((first :: rest).drop (signSize (first :: rest))).takeWhile (·.isDigit)).length)) := by
    rw [dropped (wholeSize_le _), fraction?_append parts]
  have size : numberSize (first :: (rest ++ more)) = numberSize (first :: rest) := by
    unfold numberSize
    simp only [sign, digits, fraction]
  have tail := parts.takeWhile_append (fun code => code.continuesWord || code == .scalar '.')
    (by decide) ((first :: rest).drop (numberSize (first :: rest)))
  have inside : numberSize (first :: rest) +
      (((first :: rest).drop (numberSize (first :: rest))).takeWhile
        fun code => code.continuesWord || code == .scalar '.').length ≤ (first :: rest).length := by
    have bound := (List.takeWhile_sublist (l := (first :: rest).drop (numberSize (first :: rest)))
      fun code => code.continuesWord || code == .scalar '.').length_le
    have whole := numberSize_le (first :: rest)
    rw [List.length_drop] at bound
    omega
  rw [number_eq, number_eq]
  simp only [sign, digits, fraction, size, dropped (numberSize_le _), taken (numberSize_le _), tail,
    taken inside, parts.head?_any_append spoilsNumber (by decide)]
  rfl

theorem hexEscape_ok
    {letter : Char} {width : Nat} {value : CodePoint × Nat}
    (escaped : hexEscape letter width rest = .ok value) :
    value.2 = width + 1 ∧ width ≤ rest.length ∧
      (∀ code ∈ rest.take width, code ≠ .scalar '\n') ∧
      ∀ other, hexEscape letter width (rest.take width ++ other) = .ok value := by
  unfold hexEscape at escaped ⊢
  simp only at escaped ⊢
  split at escaped
  · next whole =>
      have prefixed := List.takeWhile_prefix (l := rest.take width)
        fun code => code.hexValue?.isSome
      have bound := prefixed.length_le
      rw [whole, List.length_take] at bound
      have enough : width ≤ rest.length := by omega
      have all : (rest.take width).takeWhile (fun code => code.hexValue?.isSome) =
          rest.take width :=
        prefixed.eq_of_length (by rw [whole, List.length_take_of_le enough])
      cases escaped
      refine ⟨rfl, enough, ?_, ?_⟩
      · intro code member
        rw [← all] at member
        rintro rfl
        exact Bool.false_ne_true (List.all_eq_true.mp List.all_takeWhile _ member)
      · intro other
        rw [List.take_left' (List.length_take_of_le enough), if_pos whole]
  · cases escaped

/-- An escape stays in its line and does not depend on what follows it. -/
theorem escape_ok {value : CodePoint × Nat} (escaped : escape rest = .ok value) :
    value.2 ≤ rest.length ∧ (∀ code ∈ rest.take value.2, code ≠ .scalar '\n') ∧
      ∀ other, escape (rest.take value.2 ++ other) = .ok value := by
  unfold escape at escaped
  split at escaped
  · cases escaped
  all_goals try
    cases escaped
    exact ⟨Nat.le_add_left .., by simp, fun _ => rfl⟩
  · obtain ⟨size, enough, inLine, stable⟩ := hexEscape_ok escaped
    rw [size, List.take_succ_cons]
    exact ⟨Nat.succ_le_succ enough, by simpa using inLine, stable⟩
  · obtain ⟨size, enough, inLine, stable⟩ := hexEscape_ok escaped
    rw [size, List.take_succ_cons]
    exact ⟨Nat.succ_le_succ enough, by simpa using inLine, stable⟩
  · cases escaped

/-- A string ends at a quote of its line and does not depend on what follows that. -/
theorem stringBody_ok
    {skip : Nat} {result : Text × Nat}
    (read : stringBody size skip text = .ok result)
    (skipped : ∀ code ∈ text.take skip, code ≠ .scalar '\n') :
    ∃ body after, text = body ++ CodePoint.scalar '"' :: after ∧ skip ≤ body.length ∧
      result.2 = size + body.length + 1 ∧ (∀ code ∈ body, code ≠ .scalar '\n') ∧
      ∀ other, stringBody size skip (body ++ .scalar '"' :: other) = .ok result := by
  induction text generalizing size skip result with
  | nil => simp [stringBody] at read
  | cons code rest hypothesis =>
    -- Past its first code point the rest of the string is read as the induction says.
    have extend {skip : Nat} {later : Text × Nat}
        (laterRead : stringBody (size + 1) skip rest = .ok later)
        (laterSkipped : ∀ code ∈ rest.take skip, code ≠ .scalar '\n')
        (inLine : code ≠ .scalar '\n') :
        ∃ body after, rest = body ++ CodePoint.scalar '"' :: after ∧ skip ≤ body.length ∧
          later.2 = size + (code :: body).length + 1 ∧
          (∀ each ∈ code :: body, each ≠ .scalar '\n') ∧
          ∀ other, stringBody (size + 1) skip (body ++ .scalar '"' :: other) = .ok later := by
      obtain ⟨body, after, shape, past, total, clean, stable⟩ :=
        hypothesis laterRead laterSkipped
      refine ⟨body, after, shape, past, ?_, List.forall_mem_cons.mpr ⟨inLine, clean⟩, stable⟩
      rw [total, List.length_cons]
      omega
    cases skip with
    | succ skip =>
      simp only [List.take_succ_cons, List.forall_mem_cons] at skipped
      rw [stringBody] at read
      obtain ⟨body, after, shape, past, total, clean, stable⟩ :=
        extend read skipped.2 skipped.1
      exact ⟨code :: body, after, congrArg (code :: ·) shape, Nat.succ_le_succ past, total,
        clean, stable⟩
    | zero =>
      rw [stringBody] at read
      by_cases isQuote : code = .scalar '"'
      · rw [if_pos isQuote] at read
        cases read
        refine ⟨[], rest, by rw [isQuote]; rfl, Nat.le_refl _, rfl, by simp, fun other => ?_⟩
        rw [List.nil_append, stringBody, if_pos rfl]
      rw [if_neg isQuote] at read
      by_cases isNewline : code = .scalar '\n'
      · rw [if_pos isNewline] at read
        cases read
      rw [if_neg isNewline] at read
      by_cases isBackslash : code = .scalar '\\'
      · rw [if_pos isBackslash] at read
        split at read
        · cases read
        · next value width escaped =>
            obtain ⟨_, inLine, escapeStable⟩ := escape_ok escaped
            split at read
            · cases read
            · next values total laterRead =>
                cases read
                obtain ⟨body, after, shape, past, size, clean, stable⟩ :=
                  extend laterRead inLine isNewline
                refine ⟨code :: body, after, congrArg (code :: ·) shape, Nat.zero_le _, size,
                  clean, fun other => ?_⟩
                -- The escape lies within the body.
                have within : escape (body ++ .scalar '"' :: other) = .ok (value, width) := by
                  have known := escapeStable (body.drop width ++ .scalar '"' :: other)
                  rw [shape, List.take_append_of_le_length past, ← List.append_assoc,
                    List.take_append_drop] at known
                  exact known
                rw [List.cons_append, stringBody, if_neg isQuote, if_neg isNewline,
                  if_pos isBackslash, within]
                simp only [stable other]
      · rw [if_neg isBackslash] at read
        split at read
        · cases read
        · next values total laterRead =>
            cases read
            obtain ⟨body, after, shape, _, size, clean, stable⟩ :=
              extend laterRead (by simp) isNewline
            refine ⟨code :: body, after, congrArg (code :: ·) shape, Nat.zero_le _, size,
              clean, fun other => ?_⟩
            rw [List.cons_append, stringBody, if_neg isQuote, if_neg isNewline,
              if_neg isBackslash]
            simp only [stable other]

theorem string_token (scanned : string text = .token symbol size) :
    ∃ body after, text = body ++ CodePoint.scalar '"' :: after ∧ size = body.length + 2 ∧
      (∀ code ∈ body, code ≠ .scalar '\n') ∧ (∃ content, symbol = .string content) ∧
      ∀ other, string (body ++ .scalar '"' :: other) = .token symbol size := by
  unfold string at scanned
  split at scanned
  · next value total read =>
      obtain ⟨body, after, shape, _, total, clean, stable⟩ := stringBody_ok read (by simp)
      cases scanned
      refine ⟨body, after, shape, by simp only at total; omega, clean, ⟨_, rfl⟩, fun other => ?_⟩
      unfold string
      rw [stable]
  · cases scanned

theorem drop_takeWhile_length (test : CodePoint → Bool) (text : Text) :
    text.drop (text.takeWhile test).length = text.dropWhile test :=
  calc text.drop (text.takeWhile test).length
      = (text.takeWhile test ++ text.dropWhile test).drop (text.takeWhile test).length := by
        rw [List.takeWhile_append_dropWhile]
    _ = text.dropWhile test := List.drop_left

/-- Text that passes a test, up to a sign that does not. -/
theorem takeWhile_found
    {test : CodePoint → Bool} {stop : CodePoint}
    (found : text.drop (text.takeWhile test).length = stop :: after) :
    text = text.takeWhile test ++ stop :: after ∧
      (∀ code ∈ text.takeWhile test, test code = true) ∧
      ∀ other, (text.takeWhile test ++ stop :: other).takeWhile test = text.takeWhile test := by
  have tested : ∀ code ∈ text.takeWhile test, test code = true :=
    fun code => List.all_eq_true.mp List.all_takeWhile code
  rw [drop_takeWhile_length] at found
  have stops := List.head?_dropWhile_not test text
  rw [found] at stops
  refine ⟨?_, tested, fun other => ?_⟩
  · rw [← found, List.takeWhile_append_dropWhile]
  · rw [List.takeWhile_append_of_pos tested, List.takeWhile_cons_of_neg (by simpa using stops),
      List.append_nil]

theorem rawString_token (scanned : rawString text = .token symbol size) :
    ∃ body after, text = body ++ CodePoint.scalar '"' :: after ∧ size = body.length + 3 ∧
      (∀ code ∈ body, code ≠ .scalar '\n') ∧ (∃ content, symbol = .rawString content) ∧
      ∀ other, rawString (body ++ .scalar '"' :: other) = .token symbol size := by
  unfold rawString at scanned
  simp only at scanned
  split at scanned
  · next after closed =>
      cases scanned
      obtain ⟨shape, tested, stable⟩ := takeWhile_found closed
      refine ⟨_, after, shape, rfl, ?_, ⟨_, rfl⟩, ?_⟩
      · intro code member
        have passes := tested code member
        simp only [Bool.and_eq_true, bne_iff_ne] at passes
        exact passes.2
      · intro other
        unfold rawString
        simp only [stable other, List.drop_left]
  · cases scanned

theorem characterEnd_token
    {value : CodePoint} {stop : Nat}
    (scanned : characterEnd text value stop = .token symbol size) :
    (∃ after, text.drop stop = .scalar '\'' :: after) ∧ stop < text.length ∧
      size = stop + 1 ∧ symbol = .char value ∧
      ∀ other, characterEnd (text.take stop ++ .scalar '\'' :: other) value stop =
        .token symbol size := by
  unfold characterEnd at scanned
  split at scanned
  · next after closed =>
      cases scanned
      have inside : stop < text.length := by
        have lengths := congrArg List.length closed
        rw [List.length_drop, List.length_cons] at lengths
        omega
      refine ⟨⟨after, closed⟩, inside, rfl, rfl, fun other => ?_⟩
      unfold characterEnd
      rw [List.drop_left' (List.length_take_of_le (Nat.le_of_lt inside))]
      rfl
  · simp only at scanned
    split at scanned <;> cases scanned

/-- A character ends at a quote of its line and does not depend on what follows that. -/
theorem character_token (scanned : character (.scalar '\'' :: rest) = .token symbol size) :
    ∃ body after, rest = body ++ CodePoint.scalar '\'' :: after ∧ size = body.length + 2 ∧
      (∀ code ∈ body, code ≠ .scalar '\n') ∧ (∃ value, symbol = .char value) ∧
      ∀ other, character (.scalar '\'' :: (body ++ .scalar '\'' :: other)) =
        .token symbol size := by
  -- The body is what stands between the quotes, `width` code points of it.
  have closed {value : CodePoint} {width : Nat}
      (ended : characterEnd (.scalar '\'' :: rest) value (width + 1) = .token symbol size)
      (clean : ∀ code ∈ rest.take width, code ≠ .scalar '\n')
      (reads : ∀ other, character (.scalar '\'' :: (rest.take width ++ .scalar '\'' :: other)) =
        characterEnd (.scalar '\'' :: (rest.take width ++ .scalar '\'' :: other)) value
          (width + 1)) :
      ∃ body after, rest = body ++ CodePoint.scalar '\'' :: after ∧ size = body.length + 2 ∧
        (∀ code ∈ body, code ≠ .scalar '\n') ∧ (∃ value, symbol = .char value) ∧
        ∀ other, character (.scalar '\'' :: (body ++ .scalar '\'' :: other)) =
          .token symbol size := by
    obtain ⟨⟨after, shape⟩, inside, rfl, rfl, stable⟩ := characterEnd_token ended
    rw [List.drop_succ_cons] at shape
    rw [List.length_cons] at inside
    refine ⟨rest.take width, after, ?_, ?_, clean, ⟨value, rfl⟩, fun other => ?_⟩
    · rw [← shape, List.take_append_drop]
    · rw [List.length_take_of_le (by omega)]
    · rw [reads]
      exact stable other
  unfold character at scanned
  simp only [List.drop_succ_cons, List.drop_zero] at scanned
  split at scanned
  · cases scanned
  · cases scanned
  · cases scanned
  · next rest =>
      split at scanned
      · next value width escaped =>
          obtain ⟨_, inLine, stable⟩ := escape_ok escaped
          rw [Nat.add_comm 2 width] at scanned
          refine closed scanned (by simpa using inLine) fun other => ?_
          unfold character
          simp only [List.take_succ_cons, List.cons_append, List.drop_succ_cons, List.drop_zero,
            stable, Nat.add_comm 2 width]
      · cases scanned
  · next value rest notNewline notQuote notBackslash =>
      have inLine : value ≠ .scalar '\n' := by
        rintro rfl
        exact notNewline rfl
      refine closed scanned (by simpa using inLine) fun other => ?_
      unfold character
      simp only [List.take_succ_cons, List.cons_append, List.drop_succ_cons, List.drop_zero]

theorem word_append_parts (parts : Parts more) (text : Text) : word (text ++ more) = word text := by
  unfold word
  rw [parts.takeWhile_append _ (by decide)]

theorem sign_token (scanned : sign first rest = .token symbol size) :
    (∃ mark, symbol = .mark mark ∧ mark.spelling? ≠ none) ∧
      (size = 1 ∨ size = 2 ∧ ∃ second after, rest = second :: after ∧ second ≠ .scalar '\n') := by
  unfold sign at scanned
  split at scanned
  all_goals cases scanned
  all_goals refine ⟨⟨_, rfl, by decide⟩, ?_⟩
  iterate 5
    · exact .inr ⟨rfl, _, _, rfl, by decide⟩
  all_goals exact .inl rfl

/-- A sign depends on the code point after it only. -/
theorem sign_append (parts : Parts more) (first : CodePoint) (rest : Text) :
    sign first (rest ++ more) = sign first rest := by
  cases rest with
  | nil =>
    have notGreater : more.head? ≠ some (.scalar '>') := parts.head?_ne (by decide)
    have notEqual : more.head? ≠ some (.scalar '=') := parts.head?_ne (by decide)
    rw [List.nil_append]
    unfold sign
    split <;> simp_all
  | cons second rest =>
    rw [List.cons_append]
    unfold sign
    split <;> simp_all

theorem wordSymbol_spelled {letters : Text} {mark : Mark} (same : wordSymbol letters = .mark mark) :
    mark.spelling? ≠ none := by
  unfold wordSymbol at same
  split at same
  · cases same
    decide
  split at same
  · cases same
    decide
  split at same
  · cases same
    decide
  split at same
  · cases same
  split at same <;> cases same

end Scan

/-- A quoted token covers its body and the quote after it. -/
theorem tail_of_quoted
    {quote : Char}
    (inLine : quote ≠ '\n')
    {body : Text}
    (clean : ∀ code ∈ body, code ≠ .scalar '\n') :
    ∃ tail rest, body ++ .scalar quote :: after = tail ++ rest ∧
      body.length + 2 = tail.length + 1 ∧ ∀ code ∈ tail, code ≠ .scalar '\n' := by
  refine ⟨body ++ [CodePoint.scalar quote], after, by simp, by simp, ?_⟩
  rw [List.forall_mem_append]
  exact ⟨clean, by simpa using inLine⟩

/-- A piece at the head of a text covers a piece of what follows its first code point. -/
theorem tail_of_piece
    (positive : 0 < size)
    (inside : size ≤ (first :: rest).length)
    (clean : ∀ code ∈ (first :: rest).take size, code ≠ .scalar '\n') :
    ∃ tail after, rest = tail ++ after ∧ size = tail.length + 1 ∧
      ∀ code ∈ tail, code ≠ .scalar '\n' := by
  obtain ⟨fewer, rfl⟩ : ∃ fewer, size = fewer + 1 := ⟨size - 1, by omega⟩
  rw [List.length_cons] at inside
  rw [List.take_succ_cons, List.forall_mem_cons] at clean
  refine ⟨rest.take fewer, rest.drop fewer, (List.take_append_drop ..).symm, ?_, clean.2⟩
  rw [List.length_take_of_le (by omega)]

theorem CodePoint.continuesWord_of_startsWord {code : CodePoint} (starts : code.startsWord = true) :
    code.continuesWord = true := by
  rcases Bool.or_eq_true_iff.mp starts with letter | underscore
  · rw [continuesWord, letter, Bool.true_or, Bool.true_or]
  · rw [continuesWord, underscore, Bool.or_true]

/-- A scanned token covers a piece of one line, and its mark has a spelling. -/
theorem scan_token (scanned : scan signAllowed first rest = .token symbol size) :
    (∃ tail after, rest = tail ++ after ∧ size = tail.length + 1 ∧
      ∀ code ∈ tail, code ≠ .scalar '\n') ∧
    ∀ mark, symbol = .mark mark → mark.spelling? ≠ none := by
  have unlike {other : Symbol} (different : ∀ mark, other ≠ .mark mark) (mark : Mark)
      (same : other = .mark mark) : mark.spelling? ≠ none :=
    (different mark same).elim
  unfold scan at scanned
  split at scanned
  · obtain ⟨body, after, rfl, rfl, clean, ⟨_, rfl⟩, _⟩ := Scan.string_token scanned
    exact ⟨tail_of_quoted (by decide) clean, unlike fun _ same => Symbol.noConfusion same⟩
  · obtain ⟨body, after, rfl, rfl, clean, ⟨_, rfl⟩, _⟩ := Scan.rawString_token scanned
    have quoted : ∀ code ∈ .scalar '"' :: body, code ≠ .scalar '\n' := by simpa using clean
    exact ⟨tail_of_quoted (by decide) quoted, unlike fun _ same => Symbol.noConfusion same⟩
  · obtain ⟨body, after, rfl, rfl, clean, ⟨_, rfl⟩, _⟩ := Scan.character_token scanned
    exact ⟨tail_of_quoted (by decide) clean, unlike fun _ same => Symbol.noConfusion same⟩
  · split at scanned
    · next starts =>
        obtain ⟨rfl, isLiteral, _⟩ := Scan.number_token scanned
        refine ⟨tail_of_piece (Scan.numberSize_pos starts) (Scan.numberSize_le _) ?_,
          unlike fun _ isMark => ?_⟩
        · exact fun code => Scan.ne_newline_of_mem_number
        · rw [isMark] at isLiteral
          cases isLiteral
    split at scanned
    · next starts =>
        unfold Scan.word at scanned
        cases scanned
        have continues := CodePoint.continuesWord_of_startsWord starts
        have prefixed := List.takeWhile_prefix (l := first :: rest)
          fun code => code.continuesWord
        refine ⟨tail_of_piece ?_ prefixed.length_le ?_, fun mark => Scan.wordSymbol_spelled⟩
        · rw [List.takeWhile_cons_of_pos continues]
          exact Nat.succ_pos _
        · rw [← List.prefix_iff_eq_take.mp prefixed]
          rintro code member rfl
          have passes := List.all_eq_true.mp List.all_takeWhile _ member
          exact absurd passes (by decide)
    · obtain ⟨⟨mark, rfl, spelled⟩, rfl | ⟨rfl, second, after, rfl, clean⟩⟩ :=
        Scan.sign_token scanned
      · refine ⟨⟨[], rest, rfl, rfl, by simp⟩, fun mark same => ?_⟩
        cases same
        exact spelled
      · refine ⟨⟨[second], after, rfl, rfl, by simpa using clean⟩, fun mark same => ?_⟩
        cases same
        exact spelled

/-- The integer of a scanned token is in range. -/
theorem scan_int {value : Int} (scanned : scan signAllowed first rest = .token (.int value) size) :
    Scan.InRange value := by
  unfold scan at scanned
  split at scanned
  · obtain ⟨_, _, _, _, _, ⟨_, isString⟩, _⟩ := Scan.string_token scanned
    cases isString
  · obtain ⟨_, _, _, _, _, ⟨_, isString⟩, _⟩ := Scan.rawString_token scanned
    cases isString
  · obtain ⟨_, _, _, _, _, ⟨_, isChar⟩, _⟩ := Scan.character_token scanned
    cases isChar
  · split at scanned
    · exact (Scan.number_token scanned).2.2 value rfl
    split at scanned
    · unfold Scan.word Scan.wordSymbol at scanned
      injection scanned with isInt _
      repeat' split at isInt
      all_goals cases isInt
    · obtain ⟨⟨_, isMark, _⟩, _⟩ := Scan.sign_token scanned
      cases isMark

/-- No line ends inside a token. -/
theorem ne_newline_of_mem_scanned
    {tail : Text}
    (scanned : scan signAllowed first (tail ++ rest) = .token symbol (tail.length + 1)) :
    ∀ code ∈ first :: tail, code ≠ .scalar '\n' := by
  obtain ⟨⟨part, after, shape, size, inLine⟩, _⟩ := scan_token scanned
  obtain ⟨rfl, _⟩ := List.append_inj shape (Nat.succ.inj size)
  exact List.forall_mem_cons.mpr ⟨(visible_of_scanned scanned).1, inLine⟩

/-- A quoted piece inside a text ends inside it. -/
theorem exists_behind_quote
    {quote : CodePoint} {more body : Text}
    (shape : rest ++ more = body ++ quote :: after)
    (inside : body.length + 1 ≤ rest.length) :
    ∃ left, rest = body ++ quote :: left := by
  refine ⟨rest.drop (body.length + 1), ?_⟩
  have piece := congrArg (List.take (body.length + 1)) shape
  rw [List.take_append_of_le_length inside, List.append_cons,
    List.take_left' (by simp)] at piece
  calc rest
      = rest.take (body.length + 1) ++ rest.drop (body.length + 1) :=
        (List.take_append_drop ..).symm
    _ = body ++ quote :: rest.drop (body.length + 1) := by
        rw [piece, ← List.append_cons]

/-- A token inside a text does not depend on which of the texts that prolong no token comes
next. -/
theorem scan_replace
    {more other : Text}
    (scanned : scan signAllowed first (rest ++ more) = .token symbol size)
    (inside : size ≤ rest.length + 1)
    (parts : Parts more)
    (others : Parts other) :
    scan signAllowed first (rest ++ other) = .token symbol size := by
  unfold scan at scanned
  split at scanned
  · obtain ⟨body, after, shape, rfl, _, _, stable⟩ := Scan.string_token scanned
    obtain ⟨left, rfl⟩ := exists_behind_quote shape (by omega)
    rw [List.append_assoc]
    exact stable (left ++ other)
  · next within =>
      obtain ⟨body, after, rfl, rfl, _, _, stable⟩ := Scan.rawString_token scanned
      obtain ⟨left, rfl⟩ := exists_behind_quote
        (show rest ++ more = (.scalar '"' :: body) ++ .scalar '"' :: after from within)
        (by rw [List.length_cons]; omega)
      rw [List.append_assoc]
      exact stable (left ++ other)
  · obtain ⟨body, after, shape, rfl, _, _, stable⟩ := Scan.character_token scanned
    obtain ⟨left, rfl⟩ := exists_behind_quote shape (by omega)
    rw [List.append_assoc]
    exact stable (left ++ other)
  · next notString notCharacter notRaw =>
      rw [Scan.startsNumber_append parts, Scan.number_append parts, Scan.sign_append parts,
        ← List.cons_append, Scan.word_append_parts parts] at scanned
      rw [← scanned]
      unfold scan
      split
      · exact (notString rfl).elim
      · next shape =>
          cases rest with
          | nil =>
            have notQuote : other.head? ≠ some (.scalar '"') := others.head?_ne (by decide)
            exact (notQuote (congrArg List.head? shape)).elim
          | cons second rest =>
            cases shape
            exact (notRaw _ rfl rfl).elim
      · exact (notCharacter rfl).elim
      · rw [Scan.startsNumber_append others, Scan.number_append others, Scan.sign_append others,
          ← List.cons_append, Scan.word_append_parts others]

/-- A token stays the same when its text is followed by a text that prolongs no token. -/
theorem scan_append
    (scanned : scan signAllowed first rest = .token symbol size)
    {more : Text}
    (parts : Parts more) :
    scan signAllowed first (rest ++ more) = .token symbol size := by
  obtain ⟨⟨tail, after, shape, total, _⟩, _⟩ := scan_token scanned
  rw [← List.append_nil rest] at scanned
  refine scan_replace scanned ?_ .nil parts
  rw [total, shape, List.length_append]
  omega

end Offside
