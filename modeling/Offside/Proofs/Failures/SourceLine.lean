import Offside.Proofs.Failures.Located
import Offside.Proofs.Failures.Unreachable
import Offside.Proofs.Sessions.Syntax

namespace Offside

/-!
# The source line of a failure

The span of a failure is a place of the source that its file name names, of the step that fails
or of an earlier one whose function is called.  The line that is shown with it is always the
line with that number in the source of the step that fails.
-/

namespace Text

variable {text : Text}

theorem lines_eq_nil (empty : text.lines = []) : text = [] := by
  unfold lines at empty
  split at empty
  · rfl
  · cases empty
  · split at empty
    · cases empty
    · split at empty <;> cases empty

/-- Where line feeds alone end lines, the lines are the pieces between line feeds; an empty
piece at the end is no line. -/
theorem lines_prefix_splitOn
    (lineFeeds : ∀ code ∈ text, code.endsLine = true → code = .scalar '\n') :
    text.lines <+: text.splitOn (.scalar '\n') := by
  induction text with
  | nil => exact List.nil_prefix
  | cons code rest hypothesis =>
    obtain ⟨here, later⟩ := List.forall_mem_cons.mp lineFeeds
    have rests := hypothesis later
    rw [List.splitOn_eq_splitOnP, List.splitOnP_cons_eq_if_modifyHead,
      ← List.splitOn_eq_splitOnP]
    unfold lines
    split
    · next empty => cases empty
    · next cut =>
        cases cut
        cases here (by decide)
    · next cut =>
        cases cut
        by_cases ends : code.endsLine = true
        · rw [if_pos ends, here ends, if_pos (beq_self_eq_true _)]
          exact List.cons_prefix_cons.mpr ⟨rfl, rests⟩
        · have inLine : (code == .scalar '\n') = false := by
            rw [beq_eq_false_iff_ne]
            rintro rfl
            exact ends rfl
          rw [if_neg ends, if_neg (by simp [inLine])]
          split
          · next noLine =>
              rw [lines_eq_nil noLine]
              exact List.prefix_rfl
          · next line later known =>
              rw [known] at rests
              obtain ⟨more, shape⟩ := rests
              exact ⟨more, by rw [← shape]; rfl⟩

theorem getElem?_splitOn_of_lines
    {index : Nat} {line : Text}
    (lineFeeds : ∀ code ∈ text, code.endsLine = true → code = .scalar '\n')
    (found : text.lines[index]? = some line) :
    (text.splitOn (.scalar '\n'))[index]? = some line := by
  obtain ⟨inside, rfl⟩ := List.getElem?_eq_some_iff.mp found
  exact List.prefix_iff_getElem?.mp (lines_prefix_splitOn lineFeeds) index inside

end Text

theorem Span.getElem?_of_lineAmong?
    {span : Span} {lines : List Text} {line : Text}
    (found : span.lineAmong? lines = some line) :
    lines[span.start.line - 1]? = some line := by
  unfold lineAmong? at found
  split at found
  · cases found
  · next index same =>
      rw [same]
      exact found

/-- What is evaluated within statements fails at a place that the statements or the functions
come from. -/
theorem Evaluation.Within.covers_place
    {origin : Provenance} {limit : Nat} {top : Site} {last : Option Value} {statements : List Stmt}
    {machine : Machine} {inner : Call} {span : Span}
    (within : Within limit ⟨_, top, .stmts last statements, machine⟩ inner)
    (carries : Call.Carries (Node.From origin) ⟨_, top, .stmts last statements, machine⟩)
    (placed : inner.place? = some span) :
    origin.Covers span := by
  have inherited := Node.throughout_inherited (Node.Springs origin)
  have inside := (Within.carries within inherited carries).task
  obtain ⟨shape, site, task, before⟩ := inner
  cases task with
  | expr root =>
    cases placed
    exact Node.From.covers inside
  | stmt root =>
    cases placed
    exact Node.From.covers inside
  | entries gathered roots =>
    cases roots with
    | nil => cases placed
    | cons root rest =>
      cases placed
      exact Node.From.covers (inside root (List.mem_cons_self ..))
  | apply place name callee arguments =>
    cases placed
    obtain ⟨root, roots, outer, around⟩ := Within.call_of_apply within
    exact Node.From.covers (Within.carries around inherited carries).task
  | exprs | members | stmts | visit | visitStmt => cases placed

namespace Session

/-- What the sources of steps give: places in them, under the names of the steps. -/
def provenance (steps : List Step) : Provenance where
  place file start := ∃ step ∈ steps,
    (Provenance.ofSource step.settings.file step.source).place file start
  number _ := True

theorem Step.carries_provenance {steps : List Step} {step : Step} (member : step ∈ steps) :
    (Move.step step).Carries (Node.From (provenance steps)) := by
  intro statements reads stmt among
  have drawn := step.read_from
  rw [show step.read = .ok statements from reads] at drawn
  refine (drawn stmt among).mono ?_ fun _ _ => trivial
  exact fun file start place => ⟨step, member, place⟩

theorem after_eq_play (steps : List Step) : after steps = play (steps.map .step) start := by
  unfold after play
  rw [List.foldl_map]
  rfl

/-- The functions of a session are made of the syntax of its steps. -/
theorem after_carries {earlier steps : List Step} (subset : ∀ step ∈ earlier, step ∈ steps) :
    (after earlier).store.Carries (Node.From (provenance steps)) := by
  rw [after_eq_play]
  refine play_carries (Node.throughout_inherited _) ?_ start_carries
  exact List.forall_mem_map.mpr fun step member => Step.carries_provenance (subset step member)

/-- A step fails at a place of a source of the session, and shows a line of its own source. -/
theorem Step.fault_located
    {earlier : List Step} {step : Step} {fault : Fault} {span : Span}
    (failed : (step.perform (after earlier)).1 = .error (.fault fault))
    (placed : fault.span = some span) :
    (provenance (earlier ++ [step])).Covers span ∧
      fault.sourceLine = span.lineAmong? step.source.lines := by
  have own : step ∈ earlier ++ [step] := List.mem_append_right _ (List.mem_singleton_self _)
  have ends := step.ends_perform (after earlier)
  generalize step.perform (after earlier) = result at ends failed
  cases ends with
  | @unread failure refused =>
    have drawn := step.read_from
    rw [refused] at drawn
    cases failure with
    | abort => cases failed
    | fault described =>
      obtain ⟨bare, ⟨cause, place, rfl, -, covers⟩, same⟩ := drawn
      have isFault : described.attach step.source.lines = fault :=
        Failure.fault.inj (Except.error.inj failed)
      rw [same] at isFault
      subst isFault
      cases placed
      exact ⟨⟨step, own, covers⟩, rfl⟩
  | refused => cases failed
  | @fails statements reason last reads derivation =>
    obtain ⟨inner, within, fails⟩ := derivation.failsWithin rfl
    have carries : Evaluation.Call.Carries (Node.From (provenance (earlier ++ [step])))
        ⟨_, Evaluation.startSite step.settings.maxCallDepth Store.globalScope,
          .stmts none statements, after earlier⟩ :=
      ⟨Step.carries_provenance own _ reads,
        after_carries fun _ => List.mem_append_left [step]⟩
    rcases fails.located with ⟨cause, place, rfl, isPlace⟩ | ⟨cause, rfl⟩ | ⟨rfl, _⟩
    · cases failed
      cases placed
      exact ⟨Evaluation.Within.covers_place within carries isPlace, rfl⟩
    · cases failed
      cases placed
    · cases failed
  | succeeds => cases failed

end Session

/-- A failure with a span and a line shows the line with that number of the source of the step
that fails.  Its span is a place of the one source that its file name names, which may be that
of an earlier step. -/
theorem failure_shows_line_of_its_step
    (earlier : List Session.Step)
    (step : Session.Step)
    (fault : Fault)
    (span : Span)
    (line : Text)
    (distinct : ((earlier ++ [step]).map (·.settings.file)).Nodup)
    (lineFeeds : ∀ code ∈ step.source, code.endsLine = true → code = .scalar '\n')
    (failed : (step.perform (Session.after earlier)).1 = .error (.fault fault))
    (placed : fault.span = some span)
    (shown : fault.sourceLine = some line) :
    (step.source.splitOn (.scalar '\n'))[span.start.line - 1]? = some line ∧
      ∃ named ∈ earlier ++ [step],
        span.file = named.settings.file ∧
        (∀ other ∈ earlier ++ [step], span.file = other.settings.file → other = named) ∧
        ∃ passed rest, named.source = passed ++ rest ∧
          span.start = Position.origin.advanceBy passed := by
  obtain ⟨⟨named, member, isName, passed, rest, shape, start⟩, isLine⟩ :=
    Session.Step.fault_located failed placed
  have found := Span.getElem?_of_lineAmong? (isLine.symm.trans shown)
  refine ⟨Text.getElem?_splitOn_of_lines lineFeeds found, named, member, isName, ?_,
    passed, rest, shape, start⟩
  intro other among isOther
  exact List.inj_on_of_nodup_map distinct among member (isOther.symm.trans isName)

/-- A function whose body fails, and a later source that calls it. -/
def Session.lateCall : Session.Step × Session.Step :=
  (⟨⟨128, .text "a"⟩, "let f x = x + true", false⟩, ⟨⟨128, .text "b"⟩, "f 1", false⟩)

/-- The place of the sum in the body of the function. -/
def Session.lateSpan : Span :=
  ⟨some "a", ⟨1, 11, 10⟩, ⟨1, 19, 18⟩⟩

theorem Session.perform_lateCall :
    (Session.lateCall.2.perform (Session.after [Session.lateCall.1])).1 =
      .error (.fault ⟨.runtime (.operandKinds (.mark .plus) .int .bool), some Session.lateSpan,
        some "f 1"⟩) := by
  decide +kernel

theorem failure_shows_line_of_its_step_lateCall :
    (Session.lateCall.2.source.splitOn (.scalar '\n'))[Session.lateSpan.start.line - 1]? =
        some ("f 1" : Text) ∧
      ∃ named ∈ [Session.lateCall.1] ++ [Session.lateCall.2],
        Session.lateSpan.file = named.settings.file ∧
        (∀ other ∈ [Session.lateCall.1] ++ [Session.lateCall.2],
          Session.lateSpan.file = other.settings.file → other = named) ∧
        ∃ passed rest, named.source = passed ++ rest ∧
          Session.lateSpan.start = Position.origin.advanceBy passed :=
  failure_shows_line_of_its_step [Session.lateCall.1] Session.lateCall.2 _ Session.lateSpan _
    (by decide +kernel) (by decide +kernel) Session.perform_lateCall rfl rfl

/-- The line that is shown need not be the line of the source that the span names. -/
theorem failure_shows_line_of_other_source :
    ∃ fault, (Session.lateCall.2.perform (Session.after [Session.lateCall.1])).1 =
        .error (.fault fault) ∧
      fault.span = some Session.lateSpan ∧
      Session.lateSpan.file = Session.lateCall.1.settings.file ∧
      fault.sourceLine.isSome = true ∧
      fault.sourceLine ≠ (Session.lateCall.1.source.splitOn (.scalar '\n'))[
        Session.lateSpan.start.line - 1]? :=
  ⟨_, Session.perform_lateCall, rfl, by decide +kernel, rfl, by decide +kernel⟩

end Offside
