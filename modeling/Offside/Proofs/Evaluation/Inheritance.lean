import Offside.Proofs.Bindings.Causes

namespace Offside

/-!
# The syntax that is evaluated

A function keeps the syntax of its body, and a call evaluates it, perhaps in a later step of
a session.  What holds of the syntax that an evaluation starts from and of the functions in
its store, and passes from each node to the nodes below it, holds of all the syntax that is
evaluated within the evaluation and of the functions in the store on which it ends.
-/

variable {scope : Scope} {site : Site}

/-- Whether a predicate passes from each node to the nodes below it. -/
def Node.Inherited (holds : Node → Prop) : Prop :=
  ∀ node, holds node → ∀ part ∈ node.parts, holds part

/-- Whether a predicate holds of the expression that made each function. -/
def Store.Carries (holds : Node → Prop) (store : Store) : Prop :=
  ∀ (index : Nat) (closure : Closure), store.closures[index]? = some closure →
    ∃ span, holds (.expr (.function span closure.parameters closure.body))

namespace Store.Carries

variable {holds : Node → Prop} {store after : Store}

theorem congr (carries : store.Carries holds) (same : after.closures = store.closures) :
    after.Carries holds := by
  unfold Carries
  rw [same]
  exact carries

/-- A new function is made by an expression of which the predicate holds. -/
theorem addClosure
    {span : Span} {parameters : List Text} {body : Expr}
    (carries : store.Carries holds)
    (made : holds (.expr (.function span parameters body)))
    (pushed : after.closures = store.closures.push ⟨parameters, body, scope⟩) :
    after.Carries holds := by
  intro index closure found
  rw [pushed, Array.getElem?_push] at found
  split at found
  · cases found
    exact ⟨span, made⟩
  · exact carries index closure found

end Store.Carries

namespace Evaluation

/-- Binding parameters makes no function. -/
theorem closures_bindParameters
    (scope : Scope)
    (bindings : List (Text × Value))
    (machine : Machine) :
    (Ending.machine (bindParameters scope bindings machine)).store.closures =
      machine.store.closures := by
  let keeps (store : Store) : Prop := store.closures = machine.store.closures
  refine bindParameters_keeps (show keeps machine.store from rfl) fun _ _ _ _ same _ => ?_
  simpa [keeps] using same

/-- Whether a predicate holds of the syntax that a task is about. -/
def Task.Carries (holds : Node → Prop) : {shape : Shape} → Task shape → Prop
  | _, .expr root | _, .visit root => holds (.expr root)
  | _, .exprs roots | _, .members _ roots => ∀ root ∈ roots, holds (.expr root)
  | _, .entries _ roots => ∀ root ∈ roots, holds (.entry root)
  | _, .stmt root | _, .visitStmt root => holds (.stmt root)
  | _, .stmts _ roots => ∀ root ∈ roots, holds (.stmt root)
  | _, .apply _ _ _ _ => True

/-- Whether a predicate holds of the syntax that an evaluation starts from and of the
functions that it can call. -/
structure Call.Carries (holds : Node → Prop) (call : Call) : Prop where
  task : call.task.Carries holds
  store : call.machine.store.Carries holds

section

variable {holds : Node → Prop} {limit : Nat}
variable {outer inner : Call}

/-- A function that an evaluation makes is one of its own syntax. -/
theorem Effect.carries
    {call : Call} {before after : Store}
    (effect : Effect limit call before after)
    (inherited : Node.Inherited holds)
    (task : call.task.Carries holds)
    (carries : before.Carries holds) :
    after.Carries holds := by
  cases effect with
  | @float _ _ number machine =>
    exact carries.congr (@Operator.Ends.number machine number).keeps.2
  | array | set | map | block | assignment => exact carries.congr rfl
  | operator => exact carries.congr (Operator.apply_modest _ _ _ _ _).keeps.2
  | function => exact carries.addClosure task rfl
  | @functionBinding site _ _ mutable name parameters body machine allowed =>
    have made := inherited _ task _ (List.mem_cons_self ..)
    have pushed : ∀ scope : Scope, (((machine.store.bind scope name ⟨none, mutable⟩).addClosure
        ⟨parameters, body, scope⟩).2.fill scope name
          (.closure machine.store.closures.size)).closures =
        machine.store.closures.push ⟨parameters, body, scope⟩ := by
      intro scope
      cases scope <;> rfl
    exact carries.addClosure made (pushed site)
  | binding | functionStruck => exact carries.congr (Store.closures_bind ..)
  | builtin applied => exact carries.congr (Builtin.apply_keeps applied).2
  | enter => exact carries.congr (closures_bindParameters ..)

/-- The functions at the end of an evaluation were there before, or were made within it. -/
theorem Evaluates.carries_of_within
    {shape : Shape} {task : Task shape} {machine : Machine}
    {ending : Ending shape.Answer}
    (derivation : Evaluates limit site task machine ending)
    (inherited : Node.Inherited holds)
    (within : ∀ inner, Within limit ⟨_, site, task, machine⟩ inner →
      inner.task.Carries holds) :
    machine.store.Carries holds → (Ending.machine ending).store.Carries holds := by
  refine @Evaluates.relates (fun before after => before.Carries holds → after.Carries holds) _ _ _
    _ _ _ derivation (fun _ carries => carries) (fun first second => second ∘ first) ?_
  intro inner before after takesPlace effect carries
  exact effect.carries inherited (within inner takesPlace) carries

/-- A demanded evaluation starts from syntax below that of the evaluation that demands it, or
from the body of a function, if that is so for those that come before it. -/
theorem Demands.carries
    (demand : Demands limit outer inner)
    (inherited : Node.Inherited holds)
    (carries : outer.Carries holds)
    (ends : ∀ sibling ending, Demands limit outer sibling → sibling.Carries holds →
      Evaluates limit sibling.site sibling.task sibling.machine ending →
      (Ending.machine ending).store.Carries holds) :
    inner.Carries holds := by
  obtain ⟨task, store⟩ := carries
  cases demand with
  | arrayElements | setElements | mapEntries =>
    exact ⟨fun root member => inherited _ task _ (List.mem_map_of_mem member), store⟩
  | block =>
    exact ⟨fun root member => inherited _ task _ (List.mem_map_of_mem member), store.congr rfl⟩
  | visit | visitStmt => exact ⟨task, store⟩
  | left | callee | target | boundValue | assignedValue | expression =>
    exact ⟨inherited _ task _ (List.mem_cons_self ..), store⟩
  | right leftEvaluated =>
    have between := ends _ _ .left ⟨inherited _ task _ (List.mem_cons_self ..), store⟩
      leftEvaluated
    exact ⟨inherited _ task _ (by simp [Node.parts]), between⟩
  | key targetEvaluated =>
    have between := ends _ _ .target ⟨inherited _ task _ (List.mem_cons_self ..), store⟩
      targetEvaluated
    exact ⟨inherited _ task _ (by simp [Node.parts]), between⟩
  | arguments calleeEvaluated =>
    have between := ends _ _ .callee ⟨inherited _ task _ (List.mem_cons_self ..), store⟩
      calleeEvaluated
    exact ⟨fun root member => inherited _ task _ (by simp [Node.parts, member]), between⟩
  | apply calleeEvaluated argumentsEvaluated =>
    have between := ends _ _ .callee ⟨inherited _ task _ (List.mem_cons_self ..), store⟩
      calleeEvaluated
    have after := ends _ _ (.arguments calleeEvaluated)
      ⟨fun root member => inherited _ task _ (by simp [Node.parts, member]), between⟩
      argumentsEvaluated
    exact ⟨trivial, after⟩
  | firstExpr | firstMember | firstStmt => exact ⟨task _ (List.mem_cons_self ..), store⟩
  | restExprs firstEvaluated =>
    have between := ends _ _ .firstExpr ⟨task _ (List.mem_cons_self ..), store⟩ firstEvaluated
    exact ⟨fun root member => task root (List.mem_cons_of_mem _ member), between⟩
  | restMembers firstEvaluated =>
    have between := ends _ _ .firstMember ⟨task _ (List.mem_cons_self ..), store⟩ firstEvaluated
    exact ⟨fun root member => task root (List.mem_cons_of_mem _ member), between⟩
  | restStmts firstEvaluated =>
    have between := ends _ _ .firstStmt ⟨task _ (List.mem_cons_self ..), store⟩ firstEvaluated
    exact ⟨fun root member => task root (List.mem_cons_of_mem _ member), between⟩
  | entryKey =>
    have entry := task _ (List.mem_cons_self ..)
    exact ⟨inherited _ entry _ (List.mem_cons_self ..), store⟩
  | entryValue keyEvaluated =>
    have entry := task _ (List.mem_cons_self ..)
    have between := ends _ _ .entryKey ⟨inherited _ entry _ (List.mem_cons_self ..), store⟩
      keyEvaluated
    exact ⟨inherited _ entry _ (by simp [Node.parts]), between⟩
  | restEntries keyEvaluated valueEvaluated =>
    have entry := task _ (List.mem_cons_self ..)
    have between := ends _ _ .entryKey ⟨inherited _ entry _ (List.mem_cons_self ..), store⟩
      keyEvaluated
    have after := ends _ _ (.entryValue keyEvaluated)
      ⟨inherited _ entry _ (by simp [Node.parts]), between⟩ valueEvaluated
    exact ⟨fun root member => task root (List.mem_cons_of_mem _ member), after⟩
  | boundFunction defined =>
    obtain ⟨_, rfl⟩ := Action.of_define_ok defined
    exact ⟨inherited _ task _ (List.mem_cons_self ..), store.congr (Store.closures_bind ..)⟩
  | @body _ _ name _ closure arguments machine bound found _ ran =>
    obtain ⟨span, made⟩ := store _ _ found
    have same := closures_bindParameters (machine.store.frames.size :: closure.scope)
      (closure.parameters.zip arguments) ⟨(machine.store.addFrame name).2, machine.depth⟩
    rw [ran] at same
    exact ⟨inherited _ made _ (List.mem_cons_self ..), store.congr same⟩

/-- All the syntax that is evaluated within an evaluation comes from the syntax and the
functions that it starts from. -/
theorem Within.carries
    (within : Within limit outer inner)
    (inherited : Node.Inherited holds)
    (carries : outer.Carries holds) :
    inner.Carries holds := by
  induction outer using (demands_wellFounded limit).induction generalizing inner with
  | _ outer parts =>
    rcases within.cases_head with rfl | ⟨next, performs, later⟩
    · exact carries
    have demand := performs.demanded
    refine parts next demand later (demand.carries inherited carries ?_)
    -- What is demanded before `next` ends with functions made of the same syntax.
    intro sibling ending demanded starts derivation
    refine derivation.carries_of_within inherited (fun inside place => ?_) starts.store
    exact (parts sibling demanded place starts).task

/-- All functions at the end of an evaluation come from the syntax and the functions that it
starts from. -/
theorem Evaluates.carries
    {shape : Shape} {task : Task shape} {machine : Machine}
    {ending : Ending shape.Answer}
    (derivation : Evaluates limit site task machine ending)
    (inherited : Node.Inherited holds)
    (starts : Call.Carries holds ⟨_, site, task, machine⟩) :
    (Ending.machine ending).store.Carries holds :=
  derivation.carries_of_within inherited
    (fun _ within => (Within.carries within inherited starts).task) starts.store

end

end Evaluation

end Offside
