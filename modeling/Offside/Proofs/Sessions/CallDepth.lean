import Offside.Proofs.Evaluation.CallDepth
import Offside.Proofs.Sessions.Syntax

namespace Offside

/-!
# The call depth counts the open function bodies

A machine carries its call depth as a number, which a call raises before the body of the
function and lowers after it.  Here the bodies themselves are followed, from an evaluation down
to one that takes place within it.  The number is always that of the bodies that are open, it
stays within the limit, and every evaluation gives it back, also when it fails.  So a session
is at depth zero between its moves, however they end.
-/

namespace Evaluation

variable {limit : Nat} {outer inner : Call} {closures : List Closure}

/-- How an evaluation ends. -/
def Call.ending (limit : Nat) (call : Call) : Ending call.shape.Answer :=
  call.task.run limit (enterWith limit (limit - call.machine.depth)) call.site call.machine

/-- The evaluation of a node; entries and programs fail without one. -/
def nodeCall? (site : Site) (machine : Machine) : Node → Option Call
  | .expr root => some ⟨_, site, .visit root, machine⟩
  | .stmt root => some ⟨_, site, .visitStmt root, machine⟩
  | .entry _ => none
  | .program _ => none

/-- The evaluation `inner` takes place within `outer` while the bodies of the functions
`closures` are evaluated, the innermost first. -/
inductive Opens (limit : Nat) (outer : Call) : (closures : List Closure) → (inner : Call) →
    Prop where
  | start :
      Opens limit outer [] outer
  | part
      {closures : List Closure} {middle inner : Call} :
      Opens limit outer closures middle →
      middle.task.isCall = false →
      Performs limit middle inner →
      Opens limit outer closures inner
  | body
      {closures : List Closure} {closure : Closure} {site inside : Site} {span : Span}
      {name : Text} {index : Nat} {arguments : List Value} {machine entered : Machine} :
      Opens limit outer closures ⟨_, site, .apply span name (.closure index) arguments, machine⟩ →
      machine.store.closures[index]? = some closure →
      Performs limit ⟨_, site, .apply span name (.closure index) arguments, machine⟩
        ⟨_, inside, .visit closure.body, entered⟩ →
      Opens limit outer (closure :: closures) ⟨_, inside, .visit closure.body, entered⟩

/-- Every evaluation that takes place within another has bodies that are open around it. -/
theorem Within.opens (within : Within limit outer inner) :
    ∃ closures, Opens limit outer closures inner := by
  induction within with
  | refl => exact ⟨[], .start⟩
  | @tail middle inner _ performs hypothesis =>
    obtain ⟨closures, opens⟩ := hypothesis
    cases calls : middle.task.isCall with
    | false => exact ⟨closures, .part opens calls performs⟩
    | true =>
      obtain ⟨demand, passed⟩ := performs
      cases demand with
      | body found below bound =>
        exact ⟨_, .body opens found ⟨.body found below bound, passed⟩⟩
      | _ => cases calls

theorem Opens.within (opens : Opens limit outer closures inner) : Within limit outer inner := by
  induction opens with
  | start => exact .refl
  | part _ _ performs within => exact .tail within performs
  | body _ _ performs within => exact .tail within performs

/-- Along open bodies the depth rises by one for each of them. -/
theorem Opens.depth (opens : Opens limit outer closures inner) :
    inner.machine.depth = outer.machine.depth + closures.length := by
  induction opens with
  | start => rfl
  | part _ isPart performs hypothesis =>
    rw [performs.demanded.depth, isPart, hypothesis]
    rfl
  | body _ _ performs hypothesis =>
    have deeper := performs.demanded.depth
    simp only [Task.isCall, Bool.toNat_true] at deeper hypothesis
    rw [deeper, hypothesis, List.length_cons, Nat.add_assoc]

/-- What takes place within an evaluation stays within the limit. -/
theorem Within.depth_le (within : Within limit outer inner) (starts : outer.machine.depth ≤ limit) :
    inner.machine.depth ≤ limit := by
  induction within with
  | refl => exact starts
  | tail _ performs hypothesis =>
    rcases performs.demanded.descends with ⟨sameDepth, _⟩ | ⟨_, below⟩
    · exact sameDepth.trans_le hypothesis
    · exact below

/-- The evaluator gives back the depth of every evaluation. -/
theorem Call.depth_ending (limit : Nat) (call : Call) :
    (Ending.machine (call.ending limit)).depth = call.machine.depth :=
  (evaluates_iff_run.mpr rfl).depth

theorem NodeEvaluates.depth
    {site : Site} {root : Node} {machine : Machine} {ending : Ending Value}
    (derivation : NodeEvaluates limit site root machine ending) :
    (Ending.machine ending).depth = machine.depth := by
  cases derivation with
  | expr evaluated | stmt evaluated => exact evaluated.depth
  | entry | program => rfl

end Evaluation

namespace Session

/-- A move gives back the depth, however it ends. -/
theorem Move.depth_perform (move : Move) (machine : Machine) :
    (move.perform machine).2.depth = machine.depth := by
  have ends := move.ends_perform machine
  generalize move.perform machine = result at ends ⊢
  cases ends with
  | stopped => rfl
  | failed _ _ derivation | succeeded _ _ derivation => exact derivation.depth

theorem depth_play (moves : List Move) (machine : Machine) :
    (play moves machine).depth = machine.depth := by
  induction moves generalizing machine with
  | nil => rfl
  | cons move rest hypothesis =>
    exact (hypothesis _).trans (move.depth_perform machine)

end Session

namespace Evaluation

/-- The call depth is exact and always given back.  From a depth within the limit, the
evaluation of any node ends at the depth at which it starts, with a value or with a failure.
Every evaluation that takes place within it starts and ends at the depth of the node plus the
number of the function bodies that are open around it, and this is within the limit.  And a
session is at depth zero after any moves. -/
theorem call_depth_counts_open_bodies
    {limit : Nat}
    {machine : Machine}
    (starts : machine.depth ≤ limit)
    (site : Site)
    (root : Node) :
    (Ending.machine (node limit site root machine)).depth = machine.depth ∧
      (∀ outer ∈ nodeCall? site machine root,
        (∀ inner, Within limit outer inner ↔ ∃ closures, Opens limit outer closures inner) ∧
        ∀ inner closures, Opens limit outer closures inner →
          inner.machine.depth = machine.depth + closures.length ∧
          inner.machine.depth ≤ limit ∧
          (Ending.machine (inner.ending limit)).depth = inner.machine.depth) ∧
      ∀ moves, (Session.play moves Session.start).depth = 0 := by
  refine ⟨(nodeEvaluates_iff.mpr rfl).depth, ?_, fun moves => Session.depth_play moves _⟩
  intro outer isNode
  have sameMachine : outer.machine = machine := by
    cases root <;> cases isNode <;> rfl
  constructor
  · intro inner
    constructor
    · exact Within.opens
    · rintro ⟨closures, opens⟩
      exact opens.within
  · intro inner closures opens
    refine ⟨?_, ?_, inner.depth_ending limit⟩
    · rw [opens.depth, sameMachine]
    · exact Within.depth_le opens.within (sameMachine ▸ starts)

/-- A call of a function by its name, without arguments. -/
def selfCall : Expr :=
  let span : Span := ⟨none, .origin, .origin⟩
  .call span (.identifier span [.scalar 'f']) []

/-- A function that calls itself at once. -/
def selfCalling : Closure :=
  ⟨[], selfCall, Store.globalScope⟩

/-- The global scope, with as much room on the host stack as there is at first. -/
def globalSite : Site :=
  ⟨Store.globalScope, hostRoom⟩

/-- A fresh session in which this function has its name. -/
def selfCallingMachine : Machine :=
  let span : Span := ⟨none, .origin, .origin⟩
  Ending.machine (node 2 globalSite
    (.stmt (.binding span false [.scalar 'f'] (.function span [] selfCall))) Session.start)

/-- As long as there is depth and room left, the function opens its own body once more. -/
theorem Opens.enter_selfCalling
    {site : Site} {machine : Machine}
    (opens : Opens limit outer closures ⟨_, site, .visit selfCall, machine⟩)
    (bound : machine.store.lookup site [.scalar 'f'] = .ok (.closure 0))
    (found : machine.store.closures[0]? = some selfCalling)
    (below : machine.depth < limit)
    (room : 6 ≤ site.room) :
    Opens limit outer (selfCalling :: closures)
      ⟨_, ⟨machine.store.frames.size :: Store.globalScope, site.room - 3⟩, .visit selfCall,
        ⟨(machine.store.addFrame [.scalar 'f']).2, machine.depth + 1⟩⟩ := by
  have calleeRoom : 3 ≤ (site.inside 2).room := by
    show 3 ≤ site.room - 2
    omega
  have callee : Evaluates limit (site.inside 2)
      (.visit (.identifier ⟨none, .origin, .origin⟩ [.scalar 'f'])) machine
      (Action.check _ (machine.store.lookup site [.scalar 'f']) machine) :=
    .visit calleeRoom .identifier
  rw [bound] at callee
  have evaluated := Opens.part opens rfl ⟨.visit room, trivial⟩
  have applied := Opens.part evaluated rfl ⟨.apply callee .noExprs, _, _, callee, rfl⟩
  exact .body applied found ⟨.body found below rfl, _, found, rfl⟩

/-- Calling itself under a limit of two, the function has its body open twice at depth two and
then overflows, which leaves the session at depth zero. -/
theorem call_depth_counts_open_bodies_selfCall :
    ∃ inner,
      Opens 2 ⟨_, globalSite, .visit selfCall, selfCallingMachine⟩
        [selfCalling, selfCalling] inner ∧
      inner.machine.depth = 2 ∧
      Ending.Overflows (node 2 globalSite (.expr selfCall) selfCallingMachine) ∧
      (Ending.machine (node 2 globalSite (.expr selfCall) selfCallingMachine)).depth = 0 := by
  have starts : selfCallingMachine.depth ≤ 2 := by decide
  obtain ⟨restored, inside, _⟩ :=
    call_depth_counts_open_bodies starts globalSite (.expr selfCall)
  have unopened : Opens 2 ⟨_, globalSite, .visit selfCall, selfCallingMachine⟩ []
      ⟨_, globalSite, .visit selfCall, selfCallingMachine⟩ := .start
  have once := unopened.enter_selfCalling rfl rfl (by decide) (by decide)
  have twice := once.enter_selfCalling rfl rfl (by decide) (by decide)
  exact ⟨_, twice, ((inside _ rfl).2 _ _ twice).1, ⟨_, rfl, rfl⟩, restored⟩

end Evaluation

end Offside
