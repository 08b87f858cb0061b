import Offside.Proofs.Failures.Located
import Offside.Proofs.Tokens.Passage
import Offside.Run.Session

namespace Offside

/-!
# What aborts a run

A run that does not succeed fails with a fault, which a diagnostic describes, or it aborts.
It aborts for three reasons only: an integer literal has more digits than can be converted,
the stack for the call depth cannot be reserved, or the remainder of an infinite dividend is
taken.  Each is told from the source and the evaluation, without the run.
-/

variable {failure : Failure} {abort : Abort} {rest : Text}

theorem Failure.attach_eq_abort_iff {lines : List Text} :
    failure.attach lines = .abort abort ↔ failure = .abort abort := by
  cases failure <;> simp [attach]

namespace Scan

variable {signAllowed : Bool}

/-- An integer literal with more digits than can be converted stands at the head of a text. -/
inductive Overlong (signAllowed : Bool) : Text → Nat → Prop where
  | literal
      {sign digits rest : Text} :
      sign = [] ∨ signAllowed = true ∧ (sign = [.scalar '+'] ∨ sign = [.scalar '-']) →
      (∀ code ∈ digits, code.isDigit = true) →
      Abort.mostDigits < digits.length →
      rest.head?.any (fun code => code.isDigit || spoilsNumber code) = false →
      Overlong signAllowed (sign ++ (digits ++ rest)) digits.length

theorem Overlong.ne_nil {text : Text} {size : Nat} (overlong : Overlong signAllowed text size) :
    text ≠ [] := by
  cases overlong with
  | literal _ _ long =>
    intro empty
    simp only [List.append_eq_nil_iff] at empty
    rw [empty.2.1] at long
    exact absurd long (by decide)

theorem integer_abort
    {negative : Bool} {digits lexeme : Text}
    (aborted : integer negative digits lexeme = .abort abort) :
    Abort.mostDigits < digits.length ∧ abort = .digitLimit digits.length := by
  unfold integer at aborted
  split at aborted
  · next long =>
      cases aborted
      exact ⟨long, rfl⟩
  · simp only at aborted
    generalize (if negative = true then _ else _ : Int) = value at aborted
    split at aborted <;> cases aborted

/-- A number that cannot be converted has too many digits and nothing that prolongs them. -/
theorem number_abort {text : Text} (aborted : number text = .abort abort) :
    ∃ digits rest, text = text.take (signSize text) ++ (digits ++ rest) ∧
      (∀ code ∈ digits, code.isDigit = true) ∧ Abort.mostDigits < digits.length ∧
      rest.head?.any (fun code => code.isDigit || spoilsNumber code) = false ∧
      abort = .digitLimit digits.length := by
  rw [number_eq] at aborted
  simp only at aborted
  split at aborted
  · cases aborted
  next unspoiled =>
  split at aborted
  · cases aborted
  next noFraction =>
  obtain ⟨long, rfl⟩ := integer_abort aborted
  have size : numberSize text =
      signSize text + ((text.drop (signSize text)).takeWhile (·.isDigit)).length := by
    unfold numberSize
    simp only [noFraction, Option.map_none, Option.getD_none, Nat.add_zero]
  rw [size, ← List.drop_drop, drop_takeWhile_length, Bool.not_eq_true] at unspoiled
  have shape : text = text.take (signSize text) ++
      ((text.drop (signSize text)).takeWhile (·.isDigit) ++
        (text.drop (signSize text)).dropWhile (·.isDigit)) := by
    rw [List.takeWhile_append_dropWhile, List.take_append_drop]
  refine ⟨_, _, shape, fun code => List.all_eq_true.mp List.all_takeWhile code, long, ?_, rfl⟩
  have noDigit := List.head?_dropWhile_not (·.isDigit) (text.drop (signSize text))
  generalize (text.drop (signSize text)).dropWhile (·.isDigit) = rest at unspoiled noDigit ⊢
  cases rest with
  | nil => rfl
  | cons code after =>
    simp only [List.head?_cons] at noDigit
    simp only [List.head?_cons, Option.any_some] at unspoiled ⊢
    rw [noDigit, unspoiled]
    rfl

theorem characterEnd_ne_abort (text : Text) (value : CodePoint) (size : Nat) (abort : Abort) :
    characterEnd text value size ≠ .abort abort := by
  intro aborted
  unfold characterEnd at aborted
  split at aborted
  · cases aborted
  · simp only at aborted
    split at aborted <;> cases aborted

/-- Only a number aborts the scanner. -/
theorem scan_eq_abort
    {first : CodePoint}
    (aborted : scan signAllowed first rest = .abort abort) :
    startsNumber signAllowed (first :: rest) = true ∧ number (first :: rest) = .abort abort := by
  unfold scan at aborted
  split at aborted
  · unfold string at aborted
    split at aborted <;> cases aborted
  · unfold rawString at aborted
    simp only at aborted
    split at aborted <;> cases aborted
  · unfold character at aborted
    split at aborted
    · cases aborted
    · cases aborted
    · cases aborted
    · split at aborted
      · exact (characterEnd_ne_abort _ _ _ _ aborted).elim
      · cases aborted
    · exact (characterEnd_ne_abort _ _ _ _ aborted).elim
  · split at aborted
    · next starts => exact ⟨starts, aborted⟩
    split at aborted
    · unfold word at aborted
      cases aborted
    · unfold sign at aborted
      split at aborted <;> cases aborted

/-- The scanner aborts exactly at an integer literal with too many digits. -/
theorem scan_abort_iff {first : CodePoint} :
    scan signAllowed first rest = .abort abort ↔
      ∃ digits, Overlong signAllowed (first :: rest) digits ∧ abort = .digitLimit digits := by
  constructor
  · intro aborted
    obtain ⟨starts, aborted⟩ := scan_eq_abort aborted
    obtain ⟨digits, after, shape, allDigits, long, ended, rfl⟩ := number_abort aborted
    refine ⟨digits.length, ?_, rfl⟩
    rw [shape]
    refine .literal ?_ allDigits long ended
    rw [startsNumber_eq] at starts
    rw [signSize_eq]
    split at starts
    · next signed =>
        have allowed := (Bool.and_eq_true_iff.mp starts).1
        rcases signed with rfl | rfl
        · exact .inr ⟨allowed, .inl rfl⟩
        · exact .inr ⟨allowed, .inr rfl⟩
    · next unsigned =>
        rw [if_neg (by simpa using unsigned)]
        exact .inl rfl
  · rintro ⟨_, overlong, rfl⟩
    generalize shape : first :: rest = text at overlong
    cases overlong with
    | @literal sign digits after signed allDigits long ended =>
      have nonempty : digits ≠ [] := by
        rintro rfl
        exact absurd long (by decide)
      have whole := number_whole (signed.imp_right And.right) nonempty allDigits ended
      have starts : startsNumber signAllowed (first :: rest) = true := by
        obtain ⟨digit, others, rfl⟩ := List.exists_cons_of_ne_nil nonempty
        have isDigit := allDigits digit (List.mem_cons_self ..)
        rw [shape]
        rcases signed with rfl | ⟨rfl, rfl | rfl⟩
        · exact startsNumber_of_digit isDigit _ _
        · exact startsUnsigned_of_digit isDigit _
        · exact startsUnsigned_of_digit isDigit _
      rw [scan_of_startsNumber starts, shape, whole, integer, if_pos long]

end Scan

namespace TokenStream

variable {file : Option Text}

/-- Nothing is passed over where an overlong literal starts. -/
theorem Reader.stops_of_abort
    {reader : Reader} {code : CodePoint}
    (aborted : scan reader.signAllowed code rest = .abort abort) :
    reader.Stops (code :: rest) := by
  have starts := (Scan.scan_eq_abort aborted).1
  refine ⟨?_, ?_, ?_, fun symbol size scanned => ?_⟩
  · rintro rfl
    cases starts
  · rw [← Bool.not_eq_true]
    intro blank
    simp only [isBlank, Bool.or_eq_true, beq_iff_eq] at blank
    rcases blank with (rfl | rfl) | rfl <;> cases starts
  · rintro rfl
    cases starts
  · cases aborted.symm.trans scanned

/-- Reading a source aborts exactly if the reader comes to an overlong literal. -/
theorem tokenize_abort_iff {source : Text} :
    (tokenize file source).failure = some (.abort abort) ↔
      ∃ tokens indents reader rest digits,
        Passage file .initial source tokens indents reader rest ∧
          Scan.Overlong reader.signAllowed rest digits ∧ abort = .digitLimit digits := by
  have unlined : (tokenize file source).failure = some (.abort abort) ↔
      (readFrom file .initial source).failure = some (.abort abort) := by
    show Option.map _ _ = _ ↔ _
    simp only [Option.map_eq_some_iff, Failure.attach_eq_abort_iff, exists_eq_right]
  rw [unlined]
  constructor
  · intro aborted
    obtain ⟨tokens, indents, reader, code, rest, passage, atStop⟩ := exists_stop_of_failure aborted
    unfold Reader.failureAt at atStop
    split at atStop
    · cases atStop
    · cases atStop
    · next scanned =>
        cases atStop
        obtain ⟨digits, overlong, isLimit⟩ := Scan.scan_abort_iff.mp scanned
        exact ⟨tokens, indents, reader, code :: rest, digits, passage, overlong, isLimit⟩
  · rintro ⟨tokens, indents, reader, rest, digits, passage, overlong, rfl⟩
    obtain ⟨code, rest, rfl⟩ := List.exists_cons_of_ne_nil overlong.ne_nil
    have aborted := Scan.scan_abort_iff.mpr ⟨digits, overlong, rfl⟩
    rw [passage.readFrom_eq, readFrom_stop (passage.skip_eq rfl) (Reader.stops_of_abort aborted)]
    simp only [after, Reader.failureAt, aborted]

end TokenStream

open TokenStream

/-- Reading a program aborts exactly if the reader comes to an overlong literal. -/
theorem Program.ofSource_abort_iff {file : Option Text} {source : Text} :
    Program.ofSource file source = .error (.abort abort) ↔
      ∃ tokens indents reader rest digits,
        Passage file .initial source tokens indents reader rest ∧
          Scan.Overlong reader.signAllowed rest digits ∧ abort = .digitLimit digits := by
  rw [← tokenize_abort_iff]
  unfold Program.ofSource layoutTokens
  simp only
  cases (tokenize file source).failure with
  | some failure => simp [bind, Except.bind]
  | none =>
    -- Whatever comes after the tokens fails with faults only.
    refine iff_of_false ?_ (by simp)
    cases Layout.resolve (tokenize file source).indents (tokenize file source).tokens with
    | error fault => simp [bind, Except.bind, Failure.lift, Except.mapError]
    | ok tokens =>
      show Failure.lift (Program.ofTokens tokens) ≠ _
      cases Program.ofTokens tokens <;> simp [Failure.lift, Except.mapError]

/-- Executing statements aborts exactly if the stack cannot be reserved or an infinite dividend
is divided. -/
theorem Evaluation.execute_aborts_iff
    {limit : Nat} {scope : Scope} {statements : List Stmt} {machine : Machine} :
    Ending.reason? (execute limit scope statements machine) = some (.abort abort) ↔
      (abort = .stackReservation ∧ mostStack < 1000 + 32 * limit) ∨
        (abort = .remainderDomain ∧ 1000 + 32 * limit ≤ mostStack ∧
          ∃ inner,
            Within limit ⟨_, startSite limit scope, .stmts none statements, machine⟩ inner ∧
              DividesInfinity limit inner) := by
  have executes := executes_execute limit scope statements machine
  generalize execute limit scope statements machine = ending at executes
  cases executes with
  | refused full =>
    constructor
    · intro aborted
      cases aborted
      exact .inl ⟨rfl, full⟩
    · rintro (⟨rfl, _⟩ | ⟨_, starts, _⟩)
      · rfl
      · exact (Nat.not_le.mpr full starts).elim
  | evaluated starts derivation =>
    rw [derivation.aborts_iff]
    constructor
    · rintro ⟨rfl, divides⟩
      exact .inr ⟨rfl, starts, divides⟩
    · rintro (⟨_, full⟩ | ⟨rfl, _, divides⟩)
      · exact (Nat.not_le.mpr full starts).elim
      · exact ⟨rfl, divides⟩

namespace Session

/-- What aborts a run: an integer literal with too many digits, a stack that cannot be
reserved, or the remainder of an infinite dividend. -/
inductive Aborts (settings : Settings) (source : Text) (machine : Machine) : Abort → Prop where
  | literal
      {tokens : List Token} {indents : List (Nat × Nat)} {reader : Reader} {rest : Text}
      {digits : Nat} :
      Passage settings.file .initial source tokens indents reader rest →
      Scan.Overlong reader.signAllowed rest digits →
      Aborts settings source machine (.digitLimit digits)
  | stack
      {program : Program} :
      Program.ofSource settings.file source = .ok program →
      Evaluation.mostStack < 1000 + 32 * settings.maxCallDepth →
      Aborts settings source machine .stackReservation
  | dividend
      {program : Program} {inner : Evaluation.Call} :
      Program.ofSource settings.file source = .ok program →
      1000 + 32 * settings.maxCallDepth ≤ Evaluation.mostStack →
      Evaluation.Within settings.maxCallDepth
        ⟨_, Evaluation.startSite settings.maxCallDepth Store.globalScope,
          .stmts none program.statements, machine⟩ inner →
      Evaluation.DividesInfinity settings.maxCallDepth inner →
      Aborts settings source machine .remainderDomain

variable {settings : Settings} {source : Text} {machine : Machine} {abort : Abort}

/-- A run that cannot read its source fails as reading does, and evaluates nothing. -/
theorem run_of_unread (unread : Program.ofSource settings.file source = .error failure) :
    run settings source machine = (.error (failure.attach source.lines), machine) := by
  unfold run
  rw [unread]
  rfl

/-- A run that cannot read its source aborts exactly if reading does. -/
theorem run_abort_iff_of_unread (unread : Program.ofSource settings.file source = .error failure) :
    (run settings source machine).1 = .error (.abort abort) ↔ failure = .abort abort := by
  rw [run_of_unread unread, Except.error.injEq, Failure.attach_eq_abort_iff]

/-- A run that reads its source aborts exactly if executing the program does. -/
theorem run_abort_iff_of_read
    {program : Program}
    (reads : Program.ofSource settings.file source = .ok program) :
    (run settings source machine).1 = .error (.abort abort) ↔
      Evaluation.Ending.reason? (Evaluation.execute settings.maxCallDepth Store.globalScope
        program.statements machine) = some (.abort abort) := by
  unfold run
  rw [reads]
  simp only [Except.map, executeRead, outcome]
  generalize Evaluation.execute _ _ _ _ = ending
  cases ending with
  | ok value after => simp [withSource, Evaluation.Ending.reason?]
  | error reason after =>
    simp [withSource, Evaluation.Ending.reason?, Failure.attach_eq_abort_iff]

end Session

/-- A run aborts for what `Session.Aborts` lists and for nothing else; every other run succeeds
or fails with a fault. -/
theorem run_aborts_iff
    (settings : Settings)
    (source : Text)
    (machine : Machine)
    (abort : Abort) :
    (Session.run settings source machine).1 = .error (.abort abort) ↔
      Session.Aborts settings source machine abort := by
  constructor
  · intro aborted
    cases read : Program.ofSource settings.file source with
    | error failure =>
      rw [Session.run_abort_iff_of_unread read] at aborted
      rw [aborted] at read
      obtain ⟨tokens, indents, reader, rest, digits, passage, overlong, rfl⟩ :=
        Program.ofSource_abort_iff.mp read
      exact .literal passage overlong
    | ok program =>
      rw [Session.run_abort_iff_of_read read, Evaluation.execute_aborts_iff] at aborted
      rcases aborted with ⟨rfl, full⟩ | ⟨rfl, starts, inner, within, divides⟩
      · exact .stack read full
      · exact .dividend read starts within divides
  · intro aborts
    cases aborts with
    | literal passage overlong =>
      have unread := Program.ofSource_abort_iff.mpr ⟨_, _, _, _, _, passage, overlong, rfl⟩
      exact (Session.run_abort_iff_of_unread unread).mpr rfl
    | stack read full =>
      rw [Session.run_abort_iff_of_read read, Evaluation.execute_aborts_iff]
      exact .inl ⟨rfl, full⟩
    | dividend read starts within divides =>
      rw [Session.run_abort_iff_of_read read, Evaluation.execute_aborts_iff]
      exact .inr ⟨rfl, starts, _, within, divides⟩

/-- A run can abort: squaring makes an infinite float, which has no remainder. -/
theorem run_aborts_on_infinite_dividend :
    (Session.run .default
        "let f x = x * x\nf (f (f (f 100000000000000000000.))) % 2.0"
        Session.start).1 =
      .error (.abort .remainderDomain) := by
  decide +kernel

end Offside
