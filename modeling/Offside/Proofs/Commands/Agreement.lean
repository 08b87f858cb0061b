import Offside.Command.Perform
import Offside.Proofs.Failures.Aborts
import Offside.Proofs.Syntax.Spans

namespace Offside

/-!
# The jobs agree on what cannot be read

Three jobs read the source of a file: one runs its program, one only checks that there is a
program, and one lists its tokens.  Each reads the source on a way of its own and adds the
source line to a fault at a place of its own.  Still they report a source that is refused in
the same words: what the scanner, the layout or the reader refuses, and nothing else, is what
checking reports, and it is what running reports before anything is evaluated.
-/

/-! ## Evaluations fail for causes of their own -/

/-- No evaluation fails for a cause of the scanner, the layout or the reader. -/
theorem Evaluation.Evaluates.isRuntime_of_fault
    {limit : Nat} {shape : Shape} {site : Site} {task : Task shape} {machine : Machine}
    {ending : Ending shape.Answer} {fault : Fault}
    (derivation : Evaluates limit site task machine ending)
    (failed : Ending.reason? ending = some (.fault fault)) :
    (Failure.fault fault).isRuntime = true := by
  obtain ⟨inner, _, fails⟩ := derivation.failsWithin failed
  rcases fails.located with ⟨cause, span, located, _⟩ | ⟨cause, placeless⟩ | ⟨aborted, _⟩
  · rw [located]
    rfl
  · rw [placeless]
    rfl
  · cases aborted

namespace Session

variable {settings : Settings} {source : Text} {machine : Machine} {fault : Fault}

/-- A run that reads its source fails for a cause of the evaluation. -/
theorem isRuntime_of_run
    {program : Program}
    (reads : Program.ofSource settings.file source = .ok program)
    (failed : (run settings source machine).1 = .error (.fault fault)) :
    (Failure.fault fault).isRuntime = true := by
  have executed := Evaluation.executes_execute settings.maxCallDepth Store.globalScope
    program.statements machine
  unfold run at failed
  rw [reads] at failed
  simp only [Except.map, executeRead, outcome] at failed
  generalize Evaluation.execute _ _ _ _ = ending at executed failed
  cases ending with
  | ok value after => cases failed
  | error reason after =>
    have shown : reason.attach source.lines = .fault fault := Except.error.inj failed
    rw [← shown, Failure.isRuntime_attach]
    cases executed with
    | refused => cases shown
    | evaluated _ derivation =>
      cases reason with
      | abort => cases shown
      | fault described => exact derivation.isRuntime_of_fault rfl

/-- A run fails for a cause of the scanner, the layout or the reader exactly if its source is
refused for it. -/
theorem run_refused_iff (notRuntime : (Failure.fault fault).isRuntime = false) :
    (run settings source machine).1 = .error (.fault fault) ↔
      ∃ failure, Program.ofSource settings.file source = .error failure ∧
        failure.attach source.lines = .fault fault := by
  cases read : Program.ofSource settings.file source with
  | error failure =>
    rw [run_of_unread read]
    simp
  | ok program =>
    constructor
    · intro failed
      cases notRuntime.symm.trans (isRuntime_of_run read failed)
    · rintro ⟨failure, refused, _⟩
      cases refused

end Session

/-! ## Jobs that read a source -/

/-- The report of a job that a fault has stopped. -/
def Report.diagnosis (json : Bool) (fault : Fault) : Report :=
  ⟨1, [], endLine (if json then fault.diagnostic.json.page 0 else fault.diagnostic.report true)⟩

/-- Only a fault is reported; anything else crashes the job. -/
theorem Report.failure_eq_ok_iff {json : Bool} {failure : Failure} {report : Report} :
    Report.failure json failure = .ok report ↔
      ∃ fault, failure = .fault fault ∧ report = Report.diagnosis json fault := by
  cases failure with
  | abort cause => simp [Report.failure]
  | fault fault => simp [Report.failure, Report.diagnosis, eq_comm]

namespace Invocation

/-- The file that an invocation names can be read and has a text. -/
def Reads (invocation : Invocation) (surroundings : Surroundings) (source : Text) : Prop :=
  ∃ entry, surroundings.find? (Path.ofText invocation.subject) = some entry ∧
    entry.text (Path.ofText invocation.subject) = .ok source

/-- The fault for which a job that reads a source fails. -/
inductive FailsFor (surroundings : Surroundings) (invocation : Invocation) : Fault → Prop where
  | run
      {source : Text} {settings : Settings} {fault : Fault} :
      invocation.job = .run →
      invocation.Reads surroundings source →
      invocation.settings surroundings = .ok settings →
      (Session.run (settings.withFileName (.text invocation.subject)) source
        Session.start).1 = .error (.fault fault) →
      FailsFor surroundings invocation fault
  | check
      {source : Text} {failure : Failure} {fault : Fault} :
      invocation.job = .check →
      invocation.Reads surroundings source →
      Program.ofSource (some invocation.subject) source = .error failure →
      failure.attach source.lines = .fault fault →
      FailsFor surroundings invocation fault
  | tokens
      {source : Text} {failure : Failure} {fault : Fault} :
      invocation.job = .tokens →
      invocation.Reads surroundings source →
      layoutTokens (some invocation.subject) source = .error failure →
      failure.attach source.lines = .fault fault →
      FailsFor surroundings invocation fault

variable {surroundings : Surroundings} {invocation : Invocation} {source : Text}
  {settings : Settings} {fault : Fault} {report : Report}

theorem Reads.withSource
    (reads : invocation.Reads surroundings source)
    (next : Text → Except Crash Report) :
    invocation.withSource surroundings next = next source := by
  obtain ⟨entry, found, read⟩ := reads
  unfold Invocation.withSource
  simp only [found, read]

theorem Reads.perform_run
    (reads : invocation.Reads surroundings source)
    (isRun : invocation.job = .run)
    (loads : invocation.settings surroundings = .ok settings) :
    invocation.perform surroundings =
      invocation.valueReport
        (Session.run (settings.withFileName (.text invocation.subject)) source
          Session.start) := by
  unfold perform
  simp only [isRun, reads.withSource, withSettings, loads]

theorem Reads.perform_check
    (reads : invocation.Reads surroundings source)
    (isCheck : invocation.job = .check) :
    invocation.perform surroundings = invocation.checkReport source := by
  unfold perform
  simp only [isCheck, reads.withSource]

theorem Reads.perform_tokens
    (reads : invocation.Reads surroundings source)
    (isTokens : invocation.job = .tokens) :
    invocation.perform surroundings = invocation.tokensReport source := by
  unfold perform
  simp only [isTokens, reads.withSource]

/-- A job that fails for a fault reports it and nothing else. -/
theorem FailsFor.perform_eq (fails : FailsFor surroundings invocation fault) :
    invocation.perform surroundings = .ok (Report.diagnosis invocation.json fault) := by
  cases fails with
  | @run source settings _ isRun reads loads failed =>
    rw [reads.perform_run isRun loads]
    unfold valueReport
    generalize Session.run _ source Session.start = outcome at failed
    obtain ⟨result, machine⟩ := outcome
    cases failed
    rfl
  | check isCheck reads refused shown =>
    rw [reads.perform_check isCheck, checkReport, refused]
    exact Report.failure_eq_ok_iff.mpr ⟨fault, shown, rfl⟩
  | tokens isTokens reads refused shown =>
    rw [reads.perform_tokens isTokens, tokensReport, refused]
    exact Report.failure_eq_ok_iff.mpr ⟨fault, shown, rfl⟩

/-- Checking a source that can be read ends in failure only for a fault. -/
theorem Reads.check_fails
    (reads : invocation.Reads surroundings source)
    (isCheck : invocation.job = .check)
    (performed : invocation.perform surroundings = .ok report)
    (failed : report.status = 1) :
    ∃ fault, FailsFor surroundings invocation fault := by
  rw [reads.perform_check isCheck, checkReport] at performed
  cases read : Program.ofSource (some invocation.subject) source with
  | error failure =>
    rw [read] at performed
    obtain ⟨fault, shown, _⟩ := Report.failure_eq_ok_iff.mp performed
    exact ⟨fault, .check isCheck reads read shown⟩
  | ok program =>
    rw [read] at performed
    cases performed
    cases failed

/-- Listing the tokens of a source that can be read ends in failure only for a fault. -/
theorem Reads.tokens_fails
    (reads : invocation.Reads surroundings source)
    (isTokens : invocation.job = .tokens)
    (performed : invocation.perform surroundings = .ok report)
    (failed : report.status = 1) :
    ∃ fault, FailsFor surroundings invocation fault := by
  rw [reads.perform_tokens isTokens, tokensReport] at performed
  cases laidOut : layoutTokens (some invocation.subject) source with
  | error failure =>
    rw [laidOut] at performed
    obtain ⟨fault, shown, _⟩ := Report.failure_eq_ok_iff.mp performed
    exact ⟨fault, .tokens isTokens reads laidOut shown⟩
  | ok tokens =>
    rw [laidOut] at performed
    simp only at performed
    split at performed <;> cases performed <;> cases failed

/-! ## Jobs on one source -/

/-- Three invocations that run, check and list the source of one file and report in one
format. -/
structure OnOneSource (running checking listing : Invocation) : Prop where
  isRun : running.job = .run
  isCheck : checking.job = .check
  isTokens : listing.job = .tokens
  checked : checking.subject = running.subject
  listed : listing.subject = running.subject
  checkFormat : checking.json = running.json
  listFormat : listing.json = running.json

theorem Reads.of_subject
    {other : Invocation}
    (reads : invocation.Reads surroundings source)
    (same : other.subject = invocation.subject) :
    other.Reads surroundings source := by
  unfold Reads
  rw [same]
  exact reads

namespace OnOneSource

variable {running checking listing : Invocation}

/-- What running finds before it evaluates anything, checking finds. -/
theorem check_of_run
    (together : OnOneSource running checking listing)
    (fails : FailsFor surroundings running fault)
    (notRuntime : (Failure.fault fault).isRuntime = false) :
    FailsFor surroundings checking fault := by
  cases fails with
  | run _ reads _ failed =>
    obtain ⟨failure, refused, shown⟩ := (Session.run_refused_iff notRuntime).mp failed
    refine .check together.isCheck (reads.of_subject together.checked) ?_ shown
    rw [together.checked]
    exact refused
  | check isCheck => cases together.isRun.symm.trans isCheck
  | tokens isTokens => cases together.isRun.symm.trans isTokens

/-- What checking finds, running finds before it evaluates anything. -/
theorem run_of_check
    (together : OnOneSource running checking listing)
    (loads : running.settings surroundings = .ok settings)
    (fails : FailsFor surroundings checking fault) :
    FailsFor surroundings running fault ∧ (Failure.fault fault).isRuntime = false := by
  cases fails with
  | run isRun => cases together.isCheck.symm.trans isRun
  | check _ reads refused shown =>
    have notRuntime : (Failure.fault fault).isRuntime = false := by
      rw [← shown, Failure.isRuntime_attach]
      exact Program.isRuntime_of_ofSource refused
    rw [together.checked] at refused
    refine ⟨.run together.isRun (reads.of_subject together.checked.symm) loads ?_, notRuntime⟩
    exact (Session.run_refused_iff notRuntime).mpr ⟨_, refused, shown⟩
  | tokens isTokens => cases together.isCheck.symm.trans isTokens

/-- What stops the listing of the tokens stops checking. -/
theorem check_of_tokens
    (together : OnOneSource running checking listing)
    (fails : FailsFor surroundings listing fault) :
    FailsFor surroundings checking fault := by
  cases fails with
  | run isRun => cases together.isTokens.symm.trans isRun
  | check isCheck => cases together.isTokens.symm.trans isCheck
  | tokens _ reads refused shown =>
    have same : checking.subject = listing.subject := together.checked.trans together.listed.symm
    refine .check together.isCheck (reads.of_subject same) ?_ shown
    rw [same, Program.ofSource, refused]
    rfl

end OnOneSource

end Invocation

/-- The jobs agree on bad sources.  Take invocations that run, check and list the source of a
file that can be read, with settings that can be loaded.  Running fails for a cause of the
scanner, the layout or the reader exactly if checking ends with the status of a failure, and
then both give one and the same report, with this status and without output.  And if listing
the tokens ends with the status of a failure, checking gives the same report. -/
theorem jobs_agree_on_bad_sources
    {surroundings : Surroundings}
    {running checking listing : Invocation}
    {source : Text}
    {settings : Settings}
    (together : Invocation.OnOneSource running checking listing)
    (reads : running.Reads surroundings source)
    (loads : running.settings surroundings = .ok settings) :
    ((∃ fault, running.FailsFor surroundings fault ∧ (Failure.fault fault).isRuntime = false) ↔
        ∃ report, checking.perform surroundings = .ok report ∧ report.status = 1) ∧
      (∀ fault, running.FailsFor surroundings fault → (Failure.fault fault).isRuntime = false →
        ∃ report, running.perform surroundings = .ok report ∧
          checking.perform surroundings = .ok report ∧
          report.status = 1 ∧ report.output = []) ∧
      ∀ report, listing.perform surroundings = .ok report → report.status = 1 →
        checking.perform surroundings = .ok report := by
  refine ⟨⟨?_, ?_⟩, ?_, ?_⟩
  · rintro ⟨fault, fails, notRuntime⟩
    exact ⟨_, (together.check_of_run fails notRuntime).perform_eq, rfl⟩
  · rintro ⟨report, performed, failed⟩
    have checked := reads.of_subject together.checked
    obtain ⟨fault, fails⟩ := checked.check_fails together.isCheck performed failed
    exact ⟨fault, together.run_of_check loads fails⟩
  · intro fault fails notRuntime
    have checked := (together.check_of_run fails notRuntime).perform_eq
    rw [together.checkFormat] at checked
    exact ⟨_, fails.perform_eq, checked, rfl, rfl⟩
  · intro report performed failed
    have listed := reads.of_subject together.listed
    obtain ⟨fault, fails⟩ := listed.tokens_fails together.isTokens performed failed
    have checked := (together.check_of_tokens fails).perform_eq
    rw [together.checkFormat, ← together.listFormat, ← fails.perform_eq, performed] at checked
    exact checked

/-- Surroundings in which every file but the settings of the user holds a single quotation
mark, which no document is. -/
def Surroundings.unclosed : Surroundings where
  find? path := if path = Settings.userPath (Path.ofText "/home") then none else some (.file [34])
  settingsFile := none
  homeOf _ := some (Path.ofText "/home")
  readDocument _ := .error ⟨"found unexpected end of stream", false⟩

/-- A job on a file of such surroundings. -/
def Invocation.onUnclosed (job : Job) : Invocation :=
  ⟨job, "source", false, none, none⟩

/-- A text that is not closed stops running, checking and listing with one report. -/
theorem jobs_agree_on_bad_sources_unclosed :
    ∃ report : Report, report.status = 1 ∧ report.output = [] ∧
      (Invocation.onUnclosed .run).perform .unclosed = .ok report ∧
      (Invocation.onUnclosed .check).perform .unclosed = .ok report ∧
      (Invocation.onUnclosed .tokens).perform .unclosed = .ok report := by
  have together : Invocation.OnOneSource (.onUnclosed .run) (.onUnclosed .check)
      (.onUnclosed .tokens) := ⟨rfl, rfl, rfl, rfl, rfl, rfl, rfl⟩
  have reads : (Invocation.onUnclosed .run).Reads .unclosed [.scalar '"'] := ⟨_, rfl, rfl⟩
  obtain ⟨refused, same, lists⟩ := jobs_agree_on_bad_sources together reads
    (show _ = Except.ok Settings.default from rfl)
  have failed : ((Invocation.onUnclosed .tokens).perform .unclosed).toOption.map Report.status =
      some 1 := by decide +kernel
  cases listed : (Invocation.onUnclosed .tokens).perform .unclosed with
  | error crash => simp [listed, Except.toOption] at failed
  | ok report =>
    have status : report.status = 1 := by simpa [listed, Except.toOption] using failed
    have checked := lists report listed status
    obtain ⟨fault, fails, notRuntime⟩ := refused.mpr ⟨report, checked, status⟩
    obtain ⟨shown, ran, checkedToo, _, silent⟩ := same fault fails notRuntime
    cases Except.ok.inj (checked.symm.trans checkedToo)
    exact ⟨report, status, silent, ran, checked, rfl⟩

end Offside
