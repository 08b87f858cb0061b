import Offside.Proofs.Tokens.Scanned

namespace Offside

/-!
# Spelling symbols

Every symbol but a float, a raw string and a mark of the layout has a spelling that is scanned
as this symbol, whatever parting sign follows it.
-/

/-- Whether a text is a name: a word that is not reserved. -/
def Text.isName : Text → Bool
  | [] => false
  | first :: rest =>
    first.startsWord && rest.all (·.continuesWord) &&
      Scan.wordSymbol (first :: rest) == .identifier (first :: rest)

namespace Symbol

/-- How a symbol is written. -/
def spelling : Symbol → Text
  | .int value => Text.ofInt value
  | .string value => Text.quoted (.scalar '"') value
  | .char value => Text.quoted (.scalar '\'') [value]
  | .bool truth => if truth then "true" else "false"
  | .identifier name => name
  | .mark fixed => fixed.spelling?.getD []
  | .float _ | .rawString _ => []

/-- Whether a symbol is written by its spelling. -/
def writable : Symbol → Bool
  | .int value => Scan.leastInteger ≤ value && value ≤ Scan.greatestInteger
  | .string _ | .char _ | .bool _ => true
  | .identifier name => name.isName
  | .mark fixed => fixed.spelling?.isSome
  | .float _ | .rawString _ => false

/-- Whether the spelling of a symbol starts with the sign of a number. -/
def isNegative : Symbol → Bool
  | .int value => value < 0
  | _ => false

end Symbol

/-- Where no sign stands, it does not matter whether one is allowed. -/
theorem scan_of_digit
    {first : CodePoint}
    (isDigit : first.isDigit = true)
    (signs : Bool)
    (rest : Text) :
    scan signs first rest = scan true first rest := by
  rw [scan_of_startsNumber (Scan.startsNumber_of_digit isDigit signs rest),
    scan_of_startsNumber (Scan.startsNumber_of_digit isDigit true rest)]

/-- The numbers of the digits. -/
theorem CodePoint.toNat_of_isDigit {code : CodePoint} (isDigit : code.isDigit = true) :
    code.toNat ∈ List.range' 48 10 := by
  cases code with
  | scalar char =>
    have bounds : '0'.val ≤ char.val ∧ char.val ≤ '9'.val := by
      simpa [CodePoint.isDigit, Char.isDigit] using isDigit
    have least : 48 ≤ char.val.toNat := bounds.1
    have greatest : char.val.toNat ≤ 57 := bounds.2
    exact List.mem_range'_1.mpr ⟨least, Nat.lt_succ_of_le greatest⟩
  | surrogate => cases isDigit

/-- No number starts with what starts a word. -/
theorem CodePoint.startsWord_of_isDigit {code : CodePoint} (isDigit : code.isDigit = true) :
    code.startsWord = false := by
  have noLetter : code.isLetter = false := by
    have none : ∀ number ∈ List.range' 48 10, letterRuns.has number = false := by
      decide
    exact none _ (toNat_of_isDigit isDigit)
  have noUnderscore : (code == .scalar '_') = false := by
    refine beq_false_of_ne ?_
    rintro rfl
    cases isDigit
  rw [startsWord, noLetter, noUnderscore]
  rfl

theorem CodePoint.ne_of_startsWord
    {first : CodePoint}
    (starts : first.startsWord = true)
    {char : Char}
    (refused : (CodePoint.scalar char).startsWord = false) :
    first ≠ .scalar char := by
  rintro rfl
  exact Bool.noConfusion (refused.symm.trans starts)

theorem startsNumber_of_startsWord
    {first : CodePoint}
    (starts : first.startsWord = true)
    (signs : Bool)
    (rest : Text) :
    Scan.startsNumber signs (first :: rest) = false := by
  have noDigit : first.isDigit = false :=
    Bool.eq_false_iff.mpr fun isDigit =>
      Bool.noConfusion ((CodePoint.startsWord_of_isDigit isDigit).symm.trans starts)
  have noPlus : first ≠ .scalar '+' := CodePoint.ne_of_startsWord starts (by decide)
  have noMinus : first ≠ .scalar '-' := CodePoint.ne_of_startsWord starts (by decide)
  have noPoint : first ≠ .scalar '.' := CodePoint.ne_of_startsWord starts (by decide)
  unfold Scan.startsNumber
  split
  · next shape => exact (noPlus (List.cons.inj shape).1).elim
  · next shape => exact (noMinus (List.cons.inj shape).1).elim
  · unfold Scan.startsUnsigned
    split
    · next shape => exact (noPoint (List.cons.inj shape).1).elim
    · next shape => rw [← (List.cons.inj shape).1, noDigit]
    · next shape => cases shape

theorem scan_of_isName {name : Text} (isName : name.isName = true) (signs : Bool) :
    ∃ first rest, name = first :: rest ∧
      scan signs first rest = .token (.identifier name) (rest.length + 1) := by
  cases name with
  | nil => cases isName
  | cons first rest =>
    refine ⟨first, rest, rfl, ?_⟩
    obtain ⟨isWord, notReserved⟩ := Bool.and_eq_true_iff.mp isName
    obtain ⟨starts, continues⟩ := Bool.and_eq_true_iff.mp isWord
    have noDouble : first ≠ .scalar '"' := CodePoint.ne_of_startsWord starts (by decide)
    have noSingle : first ≠ .scalar '\'' :=
      CodePoint.ne_of_startsWord starts (by decide)
    have accepted : ∀ code ∈ first :: rest, code.continuesWord = true :=
      List.forall_mem_cons.mpr
        ⟨CodePoint.continuesWord_of_startsWord starts, List.all_eq_true.mp continues⟩
    have word := Scan.word_append .nil accepted
    rw [List.append_nil, eq_of_beq notReserved] at word
    unfold scan
    split
    · exact (noDouble rfl).elim
    · -- A raw string starts with `r` and a quote, and no word goes on with a quote.
      have quoted := List.all_eq_true.mp continues (.scalar '"') List.mem_cons_self
      exact absurd quoted (by decide)
    · exact (noSingle rfl).elim
    · rw [startsNumber_of_startsWord starts, if_neg Bool.false_ne_true, if_pos starts]
      exact word

theorem scan_mark {mark : Mark} (isSpelled : mark.spelling?.isSome = true) (signs : Bool) :
    ∃ first rest, mark.spelling?.getD [] = first :: rest ∧
      scan signs first rest = .token (.mark mark) (rest.length + 1) := by
  cases mark <;>
    first
    | exact Bool.noConfusion isSpelled
    | (cases signs <;> exact ⟨_, _, rfl, by decide⟩)

/-- A symbol is read back from its spelling; for a negative number a sign has to be allowed. -/
theorem Symbol.scan_spelling
    {symbol : Symbol}
    (writable : symbol.writable = true)
    {signs : Bool}
    (allowed : symbol.isNegative = true → signs = true) :
    ∃ first rest, symbol.spelling = first :: rest ∧
      scan signs first rest = .token symbol (rest.length + 1) := by
  cases symbol with
  | int value =>
    obtain ⟨least, greatest⟩ := Bool.and_eq_true_iff.mp writable
    obtain ⟨first, rest, spelled, scanned⟩ :=
      scan_ofInt (of_decide_eq_true least) (of_decide_eq_true greatest) .nil
    rw [List.append_nil] at scanned
    refine ⟨first, rest, spelled, ?_⟩
    cases value with
    | negSucc => rwa [allowed (decide_eq_true (Int.negSucc_lt_zero _))]
    | ofNat magnitude =>
      have shape : Text.ofNat magnitude = first :: rest := spelled
      have member : first ∈ Text.ofNat magnitude := shape ▸ List.mem_cons_self
      rwa [scan_of_digit (Text.isDigit_of_mem_ofNat member)]
  | string value =>
    obtain ⟨rest, spelled, scanned⟩ := scan_string signs value []
    exact ⟨_, rest, spelled, by simpa using scanned⟩
  | char value =>
    obtain ⟨rest, spelled, scanned⟩ := scan_char signs value []
    exact ⟨_, rest, spelled, by simpa using scanned⟩
  | bool truth =>
    obtain ⟨first, rest, spelled, scanned⟩ := scan_bool signs truth .nil
    exact ⟨first, rest, spelled, by simpa using scanned⟩
  | identifier name => exact scan_of_isName writable signs
  | mark mark => exact scan_mark writable signs
  | float
  | rawString => cases writable

end Offside
