import Mathlib.Data.List.Induction
import Offside.Proofs.Evaluation.Effects
import Offside.Proofs.Keys.Equivalence
import Offside.Proofs.Values.Walks
import Offside.Run.Session

namespace Offside

/-!
# Stored keys are snapshots

A map keeps an entry under the key that its name had when it was entered, and a set keeps
an element under the key that it had then.  Names and elements stay shared and may change
afterwards; the stored keys do not follow.  So what can be said of every store that a
session reaches is about the moments at which keys were entered, and about the names and
elements that still have the keys that they were entered under.
-/

variable {past store : Store} {value collection : Value} {α : Type}
  {entered : Store → Value → Prop} {site : Site} {machine : Machine}

namespace Evaluation

/-- The evaluation `call`, or one that it demands, enters a value into a map or a set, and
`past` is the store from which its key is taken. -/
inductive Enters (limit : Nat) : (call : Call) → (past : Store) → (value : Value) → Prop where
  | member
      {site : Site} {first : Expr} {rest : List Expr} {known : List SetEntry}
      {machine between : Machine} {value : Value} :
      Evaluates limit site (.visit first) machine (.ok value between) →
      Enters limit ⟨_, site, .members known (first :: rest), machine⟩ between.store value
  | entry
      {site : Site} {span : Span} {keyExpr valueExpr : Expr} {rest : List Entry}
      {known : List MapEntry} {machine between after : Machine} {name value : Value} :
      Evaluates limit site (.visit keyExpr) machine (.ok name between) →
      Evaluates limit site (.visit valueExpr) between (.ok value after) →
      Enters limit ⟨_, site, .entries known (.pair span keyExpr valueExpr :: rest), machine⟩
        after.store name
  | set
      {site : Site} {span : Span} {name : Text} {index : Nat} {key value : Value}
      {machine : Machine} :
      Enters limit
        ⟨_, site, .apply span name (.builtin .set) [.collection (.map index), key, value],
          machine⟩
        machine.store key
  | insert
      {site : Site} {span : Span} {name : Text} {index : Nat} {value : Value}
      {machine : Machine} :
      Enters limit
        ⟨_, site, .apply span name (.builtin .insert) [.collection (.set index), value],
          machine⟩
        machine.store value
  | inner
      {outer inner : Call} {past : Store} {value : Value} :
      Demands limit outer inner →
      Enters limit inner past value →
      Enters limit outer past value

end Evaluation

/-- The stored key of a map entry, and the value that it was taken from. -/
def MapEntry.stored (entry : MapEntry) : Key × Value :=
  (entry.key, entry.name)

/-- The stored key of a set element, and the value that it was taken from. -/
def SetEntry.stored (entry : SetEntry) : Key × Value :=
  (entry.key, entry.element)

/-- Stored keys are those of their values at moments when they were entered, and no two
are the same. -/
structure Keyed (entered : Store → Value → Prop) (pairs : List (Key × Value)) : Prop where
  taken : ∀ key value, (key, value) ∈ pairs →
    ∃ past, entered past value ∧ key.same (past.key value) = true
  distinct : (pairs.map Prod.fst).Pairwise fun first second => first.same second = false

namespace Keyed

variable {pairs : List (Key × Value)}

theorem nil : Keyed entered [] :=
  ⟨by simp, by simp⟩

theorem mono
    {entered' : Store → Value → Prop}
    (more : ∀ past value, entered past value → entered' past value)
    (keyed : Keyed entered pairs) :
    Keyed entered' pairs := by
  refine ⟨fun key value member => ?_, keyed.distinct⟩
  obtain ⟨past, before, same⟩ := keyed.taken key value member
  exact ⟨past, more past value before, same⟩

/-- A value may be entered under its key if no stored key is the same. -/
theorem append
    (keyed : Keyed entered pairs)
    (now : entered past value)
    (fresh : ∀ pair ∈ pairs, pair.1.same (past.key value) = false) :
    Keyed entered (pairs ++ [(past.key value, value)]) := by
  constructor
  · intro key other member
    rcases List.mem_append.mp member with known | new
    · exact keyed.taken key other known
    · cases List.mem_singleton.mp new
      exact ⟨past, now, Key.same_refl _⟩
  · rw [List.map_append, List.pairwise_append]
    refine ⟨keyed.distinct, List.pairwise_singleton _ _, ?_⟩
    intro first firstMember second secondMember
    obtain ⟨pair, member, rfl⟩ := List.mem_map.mp firstMember
    cases List.mem_singleton.mp secondMember
    exact fresh pair member

/-- A value may take the place of another if its key is the same as the stored one. -/
theorem replace
    {before after : List (Key × Value)} {key : Key} {old : Value}
    (keyed : Keyed entered (before ++ (key, old) :: after))
    (now : entered past value)
    (same : key.same (past.key value) = true) :
    Keyed entered (before ++ (key, value) :: after) := by
  constructor
  · intro other kept member
    have cases : (other, kept) = (key, value) ∨
        (other, kept) ∈ before ++ (key, old) :: after := by
      simp only [List.mem_append, List.mem_cons] at member ⊢
      tauto
    rcases cases with here | elsewhere
    · cases here
      exact ⟨past, now, same⟩
    · exact keyed.taken other kept elsewhere
  · simpa using keyed.distinct

end Keyed

/-- The stored keys of every map and every set are snapshots. -/
structure Store.KeyedBy (store : Store) (entered : Store → Value → Prop) : Prop where
  maps : ∀ index, Keyed entered ((store.entries index).map MapEntry.stored)
  sets : ∀ index, Keyed entered ((store.elements index).map SetEntry.stored)

namespace Store

/-- Entering into a map replaces the entry under the same key, or adds one at the end if
there is none. -/
theorem enter_cases (entries : List MapEntry) (entry : MapEntry) :
    ((∀ other ∈ entries, other.key.same entry.key = false) ∧
        enter entries entry = entries ++ [entry]) ∨
      ∃ before found after, entries = before ++ found :: after ∧
        found.key.same entry.key = true ∧
        enter entries entry = before ++ ⟨found.key, entry.name, entry.value⟩ :: after := by
  induction entries with
  | nil => exact .inl ⟨by simp, rfl⟩
  | cons first rest hypothesis =>
    cases same : first.key.same entry.key with
    | true => exact .inr ⟨[], first, rest, rfl, same, by simp [enter, same]⟩
    | false =>
      rcases hypothesis with ⟨fresh, added⟩ | ⟨before, found, after, rfl, hit, put⟩
      · refine .inl ⟨?_, by simp [enter, same, added]⟩
        intro other member
        rcases List.mem_cons.mp member with rfl | later
        · exact same
        · exact fresh other later
      · exact .inr ⟨first :: before, found, after, rfl, hit, by simp [enter, same, put]⟩

/-- After a list of a table is replaced, a list is the replacement or the old one. -/
theorem getD_setIfInBounds
    (table : Array (List α))
    (index : Nat)
    (replacement : List α)
    (query : Nat) :
    (table.setIfInBounds index replacement)[query]?.getD [] = replacement ∨
      (table.setIfInBounds index replacement)[query]?.getD [] = table[query]?.getD [] := by
  rw [Array.getElem?_setIfInBounds]
  split
  · split
    · exact .inl rfl
    · rename_i here outside
      subst here
      rw [Array.getElem?_eq_none (Nat.not_lt.mp outside)]
      exact .inr rfl
  · exact .inr rfl

/-- After a list is added to a table, a list is the added or an old one. -/
theorem getD_push (table : Array (List α)) (added : List α) (query : Nat) :
    (table.push added)[query]?.getD [] = added ∨
      (table.push added)[query]?.getD [] = table[query]?.getD [] := by
  rw [Array.getElem?_push]
  split
  · exact .inl rfl
  · exact .inr rfl

theorem entries_setEntries
    (store : Store)
    (index : Nat)
    (replacement : List MapEntry)
    (query : Nat) :
    (store.setEntries index replacement).entries query = replacement ∨
      (store.setEntries index replacement).entries query = store.entries query :=
  getD_setIfInBounds store.maps index replacement query

theorem elements_setElements
    (store : Store)
    (index : Nat)
    (replacement : List SetEntry)
    (query : Nat) :
    (store.setElements index replacement).elements query = replacement ∨
      (store.setElements index replacement).elements query = store.elements query :=
  getD_setIfInBounds store.sets index replacement query

theorem entries_addMap (store : Store) (added : List MapEntry) (query : Nat) :
    (store.addMap added).2.entries query = added ∨
      (store.addMap added).2.entries query = store.entries query :=
  getD_push store.maps added query

theorem elements_addSet (store : Store) (added : List SetEntry) (query : Nat) :
    (store.addSet added).2.elements query = added ∨
      (store.addSet added).2.elements query = store.elements query :=
  getD_push store.sets added query

namespace KeyedBy

theorem mono
    {entered' : Store → Value → Prop}
    (more : ∀ past value, entered past value → entered' past value)
    (keyed : store.KeyedBy entered) :
    store.KeyedBy entered' :=
  ⟨fun index => (keyed.maps index).mono more, fun index => (keyed.sets index).mono more⟩

/-- Only the maps and the sets of a store matter. -/
theorem congr
    {store' : Store}
    (keyed : store.KeyedBy entered)
    (sameMaps : store'.maps = store.maps)
    (sameSets : store'.sets = store.sets) :
    store'.KeyedBy entered := by
  constructor
  · intro index
    rw [Store.entries, sameMaps]
    exact keyed.maps index
  · intro index
    rw [Store.elements, sameSets]
    exact keyed.sets index

theorem addMap
    {added : List MapEntry}
    (keyed : store.KeyedBy entered)
    (addedKeyed : Keyed entered (added.map MapEntry.stored)) :
    (store.addMap added).2.KeyedBy entered := by
  refine ⟨fun index => ?_, keyed.sets⟩
  rcases store.entries_addMap added index with new | old
  · rw [new]
    exact addedKeyed
  · rw [old]
    exact keyed.maps index

theorem addSet
    {added : List SetEntry}
    (keyed : store.KeyedBy entered)
    (addedKeyed : Keyed entered (added.map SetEntry.stored)) :
    (store.addSet added).2.KeyedBy entered := by
  refine ⟨keyed.maps, fun index => ?_⟩
  rcases store.elements_addSet added index with new | old
  · rw [new]
    exact addedKeyed
  · rw [old]
    exact keyed.sets index

/-- Entering a value into a map under its key keeps the stored keys snapshots. -/
theorem enter
    (keyed : store.KeyedBy entered)
    (index : Nat)
    (name value : Value)
    (now : entered store name) :
    (store.setEntries index
      (Store.enter (store.entries index) ⟨store.key name, name, value⟩)).KeyedBy entered := by
  refine ⟨fun query => ?_, keyed.sets⟩
  rcases store.entries_setEntries index _ query with new | old
  swap
  · rw [old]
    exact keyed.maps query
  rw [new]
  have before := keyed.maps index
  rcases Store.enter_cases (store.entries index) ⟨store.key name, name, value⟩ with
      ⟨fresh, added⟩ | ⟨earlier, found, later, split, same, put⟩
  · rw [added, List.map_append]
    refine before.append now fun pair member => ?_
    obtain ⟨entry, known, rfl⟩ := List.mem_map.mp member
    exact fresh entry known
  · rw [put, List.map_append, List.map_cons]
    rw [split, List.map_append, List.map_cons] at before
    exact before.replace now same

end KeyedBy

end Store

/-- Adding an element under its key to those of a set keeps the stored keys snapshots. -/
theorem Keyed.adjoin
    {elements : List SetEntry}
    (keyed : Keyed entered (elements.map SetEntry.stored))
    (now : entered past value) :
    Keyed entered ((Store.adjoin elements ⟨past.key value, value⟩).map SetEntry.stored) := by
  unfold Store.adjoin
  split
  · exact keyed
  · rename_i absent
    rw [List.map_append]
    refine keyed.append now fun pair member => ?_
    obtain ⟨element, known, rfl⟩ := List.mem_map.mp member
    simp only [List.any_eq_true, not_exists, not_and, Bool.not_eq_true] at absent
    exact absent element known

/-- Adding a further entry under a key that is not taken keeps the stored keys
snapshots. -/
theorem Keyed.extend
    {entries : List MapEntry} {name : Value}
    (keyed : Keyed entered (entries.map MapEntry.stored))
    (now : entered past name)
    (vacant : (Store.entryAt? entries (past.key name)).isSome = false) :
    Keyed entered
      ((entries ++ [(⟨past.key name, name, value⟩ : MapEntry)]).map MapEntry.stored) := by
  rw [List.map_append]
  refine keyed.append now fun pair member => ?_
  obtain ⟨entry, known, rfl⟩ := List.mem_map.mp member
  simp only [Store.entryAt?, Option.isSome_eq_false_iff, Option.isNone_iff_eq_none,
    List.find?_eq_none] at vacant
  exact Bool.eq_false_iff.mpr (vacant entry known)

theorem Store.KeyedBy.adjoin
    (keyed : store.KeyedBy entered)
    (index : Nat)
    (value : Value)
    (now : entered store value) :
    (store.setElements index
      (Store.adjoin (store.elements index) ⟨store.key value, value⟩)).KeyedBy entered := by
  refine ⟨keyed.maps, fun query => ?_⟩
  rcases store.elements_setElements index _ query with new | old
  · rw [new]
    exact (keyed.sets index).adjoin now
  · rw [old]
    exact keyed.sets query

/-- A check that is passed has a result, with which the rest goes on. -/
theorem RuntimeCause.of_bind_ok
    {β : Type} {check : Except RuntimeCause α} {next : α → Except RuntimeCause β} {result : β}
    (passed : check >>= next = .ok result) :
    ∃ value, check = .ok value ∧ next value = .ok result := by
  cases check with
  | ok value => exact ⟨value, rfl, passed⟩
  | error cause => cases passed

/-- What a builtin gives and makes of the store, where it accepts its arguments. -/
inductive Builtin.Applies (store : Store) : Builtin → List Value → Value → Store → Prop where
  | len
      {value : Value} {size : Nat} :
      Builtin.length store value = .ok size →
      Applies store .len [value] (.int size) store
  | get
      {collection key found : Value} :
      Builtin.element "get" store collection key = .ok found →
      Applies store .get [collection, key] found store
  | replace
      {index place : Nat} {key value : Value} :
      Applies store .set [.collection (.array index), key, value] (.collection (.array index))
        (store.setItems index ((store.items index).set place value))
  | enter
      {index : Nat} {key value : Value} :
      Applies store .set [.collection (.map index), key, value] (.collection (.map index))
        (store.setEntries index (Store.enter (store.entries index) ⟨store.key key, key, value⟩))
  | push
      {index : Nat} {value : Value} :
      Applies store .push [.collection (.array index), value] (.collection (.array index))
        (store.setItems index (store.items index ++ [value]))
  | insert
      {index : Nat} {value : Value} :
      Applies store .insert [.collection (.set index), value] (.collection (.set index))
        (store.setElements index (Store.adjoin (store.elements index) ⟨store.key value, value⟩))
  | contains
      {collection value : Value} {truth : Bool} :
      Applies store .contains [collection, value] (.bool truth) store
  | str
      {value : Value} :
      Applies store .str [value] (.str (store.display value)) store

theorem Builtin.applies_of_apply
    {after : Store} {function : Builtin} {arguments : List Value} {result : Value}
    (applied : Builtin.apply store function arguments = .ok (result, after)) :
    Applies store function arguments result after := by
  unfold Builtin.apply at applied
  split at applied
  · obtain ⟨_, measured, returned⟩ := RuntimeCause.of_bind_ok applied
    cases returned
    exact .len measured
  · obtain ⟨_, found, returned⟩ := RuntimeCause.of_bind_ok applied
    cases returned
    exact .get found
  · obtain ⟨_, replaced, returned⟩ := RuntimeCause.of_bind_ok applied
    cases returned
    unfold Builtin.replace at replaced
    split at replaced
    · obtain ⟨_, _, changed⟩ := RuntimeCause.of_bind_ok replaced
      cases changed
      exact .replace
    · cases replaced
      exact .enter
    · cases replaced
  · obtain ⟨_, appended, returned⟩ := RuntimeCause.of_bind_ok applied
    cases returned
    unfold Builtin.append at appended
    split at appended <;> cases appended
    exact .push
  · obtain ⟨_, adjoined, returned⟩ := RuntimeCause.of_bind_ok applied
    cases returned
    unfold Builtin.adjoin at adjoined
    split at adjoined <;> cases adjoined
    exact .insert
  · obtain ⟨_, _, returned⟩ := RuntimeCause.of_bind_ok applied
    cases returned
    exact .contains
  · cases applied
    exact .str
  · cases applied

namespace Evaluation

variable {limit : Nat}

/-- What is entered within a part of an evaluation is entered within the evaluation. -/
theorem Enters.of_within
    {outer inner : Call}
    (within : Within limit outer inner)
    (enters : Enters limit inner past value) :
    Enters limit outer past value := by
  induction within using Relation.ReflTransGen.head_induction_on with
  | refl => exact enters
  | head performs _ hypothesis => exact .inner performs.demanded hypothesis

/-- The gathered elements of a set are stored under snapshots. -/
theorem Evaluates.members_keyed
    {known gathered : List SetEntry} {elements : List Expr}
    {after : Machine}
    (derivation : Evaluates limit site (.members known elements) machine (.ok gathered after))
    (sees : ∀ past value, Enters limit ⟨_, site, .members known elements, machine⟩ past value →
      entered past value)
    (keyed : Keyed entered (known.map SetEntry.stored)) :
    Keyed entered (gathered.map SetEntry.stored) := by
  induction elements generalizing known machine with
  | nil =>
    cases derivation
    exact keyed
  | cons first rest hypothesis =>
    cases derivation with
    | members firstEvaluated restEvaluated =>
      exact hypothesis restEvaluated
        (fun past value enters => sees past value (.inner (.restMembers firstEvaluated) enters))
        (keyed.adjoin (sees _ _ (.member firstEvaluated)))

/-- The gathered entries of a map are stored under snapshots. -/
theorem Evaluates.entries_keyed
    {known gathered : List MapEntry} {pairs : List Entry}
    {after : Machine}
    (derivation : Evaluates limit site (.entries known pairs) machine (.ok gathered after))
    (sees : ∀ past value, Enters limit ⟨_, site, .entries known pairs, machine⟩ past value →
      entered past value)
    (keyed : Keyed entered (known.map MapEntry.stored)) :
    Keyed entered (gathered.map MapEntry.stored) := by
  induction pairs generalizing known machine with
  | nil =>
    cases derivation
    exact keyed
  | cons first rest hypothesis =>
    cases derivation with
    | entries keyEvaluated valueEvaluated vacant restEvaluated =>
      exact hypothesis restEvaluated
        (fun past value enters =>
          sees past value (.inner (.restEntries keyEvaluated valueEvaluated) enters))
        (keyed.extend (sees _ _ (.entry keyEvaluated valueEvaluated)) vacant)

/-- An effect keeps the stored keys snapshots if what is entered counts as entered. -/
theorem Effect.keyed
    {call : Call} {before after : Store}
    (effect : Effect limit call before after)
    (sees : ∀ past value, Enters limit call past value → entered past value)
    (keyed : before.KeyedBy entered) :
    after.KeyedBy entered := by
  have float {store : Store} (keyed : store.KeyedBy entered) (number : Float) :
      (store.addFloat number).2.KeyedBy entered := by
    unfold Store.addFloat
    split <;> exact keyed.congr rfl rfl
  have bind {store : Store} (keyed : store.KeyedBy entered) (scope : Scope) (name : Text)
      (slot : Slot) : (store.bind scope name slot).KeyedBy entered := by
    cases scope <;> exact keyed.congr rfl rfl
  cases effect with
  | array | function | block | assignment => exact keyed.congr rfl rfl
  | float => exact float keyed _
  | set evaluated =>
    exact keyed.addSet (evaluated.members_keyed
      (fun past value enters => sees past value (.inner .setElements enters)) .nil)
  | map evaluated =>
    exact keyed.addMap (evaluated.entries_keyed
      (fun past value enters => sees past value (.inner .mapEntries enters)) .nil)
  | @operator _ span _ _ operator _ _ last leftValue rightValue =>
    have ends := Operator.apply_modest operator span leftValue rightValue last
    generalize Operator.apply operator span leftValue rightValue last = ending at ends ⊢
    cases ends with
    | answer | refused => exact keyed
    | array => exact keyed.congr rfl rfl
    | number => exact float keyed _
  | @functionBinding site =>
    obtain ⟨scope, room⟩ := site
    cases scope <;> exact keyed.congr rfl rfl
  | functionStruck => exact bind keyed _ _ _
  | binding => exact bind keyed _ _ _
  | builtin applied =>
    cases Builtin.applies_of_apply applied with
    | len | get | contains | str => exact keyed
    | replace | push => exact keyed.congr rfl rfl
    | enter => exact keyed.enter _ _ _ (sees _ _ .set)
    | insert => exact keyed.adjoin _ _ (sees _ _ .insert)
  | enter =>
    exact @bindParameters_keeps _ _ (·.KeyedBy entered) _ (keyed.congr rfl rfl)
      fun _ _ _ _ keyed _ => bind keyed _ _ _

/-- An evaluation keeps the stored keys snapshots if what it enters counts as entered. -/
theorem Evaluates.keyed
    {shape : Shape} {task : Task shape}
    {ending : Ending shape.Answer}
    (derivation : Evaluates limit site task machine ending)
    (sees : ∀ past value, Enters limit ⟨_, site, task, machine⟩ past value →
      entered past value) :
    machine.store.KeyedBy entered → (Ending.machine ending).store.KeyedBy entered := by
  refine @Evaluates.relates (fun before after => before.KeyedBy entered → after.KeyedBy entered)
    _ _ _ _ _ _ derivation (fun _ => id) (fun first second => second ∘ first) ?_
  exact fun inner _ _ within effect => effect.keyed fun past value enters =>
    sees past value (enters.of_within within)

end Evaluation

namespace Session

namespace Step

/-- The machine after a step is the one on which the execution of what it reads ends. -/
theorem perform_machine (step : Step) (machine : Machine) :
    (step.perform machine).2 = (executeRead step.settings step.read machine).2 := by
  have withSource_machine (source : Text) (result : Except Failure (Option Value) × Machine) :
      (withSource source result).2 = result.2 := by
    obtain ⟨answer, after⟩ := result
    cases answer <;> rfl
  unfold perform read
  split
  · exact withSource_machine _ _
  · exact withSource_machine _ _

end Step

@[simp] theorem after_concat (steps : List Step) (step : Step) :
    after (steps ++ [step]) = (step.perform (after steps)).2 := by
  simp [after]

/-- A step of the session enters a value into a map or a set, and `past` is the store from
which its key is taken. -/
inductive Entered : (steps : List Step) → (past : Store) → (value : Value) → Prop where
  | now
      {steps : List Step} {step : Step} {statements : List Stmt} {past : Store}
      {value : Value} :
      step.read = .ok statements →
      1000 + 32 * step.settings.maxCallDepth ≤ Evaluation.mostStack →
      Evaluation.Enters step.settings.maxCallDepth
        ⟨_, Evaluation.startSite step.settings.maxCallDepth Store.globalScope,
          .stmts none statements, after steps⟩ past value →
      Entered (steps ++ [step]) past value
  | before
      {steps : List Step} {step : Step} {past : Store} {value : Value} :
      Entered steps past value →
      Entered (steps ++ [step]) past value

/-- A step keeps the stored keys snapshots if what it enters counts as entered. -/
theorem Step.keyed
    (step : Step)
    (sees : ∀ statements past value,
      step.read = .ok statements →
      1000 + 32 * step.settings.maxCallDepth ≤ Evaluation.mostStack →
      Evaluation.Enters step.settings.maxCallDepth
        ⟨_, Evaluation.startSite step.settings.maxCallDepth Store.globalScope,
          .stmts none statements, machine⟩ past value →
      entered past value)
    (keyed : machine.store.KeyedBy entered) :
    (step.perform machine).2.store.KeyedBy entered := by
  rw [Step.perform_machine]
  cases reads : step.read with
  | error reason => exact keyed
  | ok statements =>
    show (outcome _ machine).2.store.KeyedBy entered
    by_cases starts : 1000 + 32 * step.settings.maxCallDepth ≤ Evaluation.mostStack
    swap
    · unfold Evaluation.execute Evaluation.executeAt
      rw [if_pos (Nat.not_le.mp starts)]
      exact keyed
    have derivation :=
      Evaluation.evaluates_iff_run.mpr
        (Evaluation.execute_of_starts starts Store.globalScope statements machine).symm
    have ends := derivation.keyed
      (fun past value => sees statements past value reads starts) keyed
    unfold outcome
    generalize Evaluation.execute _ _ _ _ = ending at ends ⊢
    cases ending <;> exact ends

/-- The stored keys of every store that a session reaches are snapshots. -/
theorem after_keyed (steps : List Step) :
    (after steps).store.KeyedBy (Entered steps) := by
  induction steps using List.reverseRecOn with
  | nil =>
    constructor <;> intro index <;> exact .nil
  | append_singleton steps step hypothesis =>
    rw [after_concat]
    refine step.keyed (fun statements past value => Entered.now) ?_
    exact hypothesis.mono fun past value => .before

end Session

namespace Store

/-- A stored key is still the key of the value that it was taken from. -/
def Current (store : Store) (pair : Key × Value) : Prop :=
  pair.1.same (store.key pair.2) = true

instance (store : Store) (pair : Key × Value) : Decidable (store.Current pair) :=
  inferInstanceAs (Decidable (_ = true))

/-- Equal values have the same key. -/
theorem same_key_of_equal
    {left right : Value}
    (equal : store.equal left right = true) :
    (store.key left).same (store.key right) = true := by
  unfold Store.equal at equal
  split at equal
  · rcases Bool.or_eq_true_iff.mp equal with oneCollection | same
    · rw [beq_iff_eq.mp oneCollection]
      exact Key.same_refl _
    · exact same
  · exact equal

/-- Two entries of a map whose keys are current have unequal names. -/
theorem KeyedBy.names_unequal (keyed : store.KeyedBy entered) (index : Nat) :
    (store.entries index).Pairwise fun first second =>
      store.Current first.stored → store.Current second.stored →
        store.equal first.name second.name = false := by
  have distinct := (keyed.maps index).distinct
  rw [List.map_map, List.pairwise_map] at distinct
  refine distinct.imp fun different firstCurrent secondCurrent => ?_
  rw [← Bool.not_eq_true]
  intro equal
  have same := Key.same_trans firstCurrent
    (Key.same_trans (same_key_of_equal equal) (Key.same_symm secondCurrent))
  exact Bool.false_ne_true (different.symm.trans same)

/-- A set has every element whose key is current. -/
theorem contains_of_current
    {index : Nat} {element : SetEntry}
    (member : element ∈ store.elements index)
    (current : store.Current element.stored) :
    Builtin.apply store .contains [.collection (.set index), element.element] =
      .ok (.bool true, store) := by
  have found : (store.elements index).any
      (fun other => other.key.same (store.key element.element)) = true :=
    List.any_eq_true.mpr ⟨element, member, current⟩
  simp only [Builtin.apply, Builtin.has, found]
  rfl

/-- A stored key whose value is no collection is current. -/
theorem current_of_not_collection
    {pairs : List (Key × Value)}
    (keyed : Keyed entered pairs)
    {pair : Key × Value}
    (member : pair ∈ pairs)
    (bare : ∀ reference, pair.2 ≠ .collection reference) :
    store.Current pair := by
  obtain ⟨past, _, same⟩ := keyed.taken pair.1 pair.2 member
  rw [key_of_not_collection bare] at same
  rwa [Current, key_of_not_collection bare]

end Store

/-- In every store that a session reaches, every map entry and every set element is stored
under the key that its name or the element had at a moment of the session when it was
entered, and no two keys stored in one map or set are the same.  So a map holds no two
equal names, and a set is found to contain what it holds, as long as their keys are
current; and the keys of names and elements that are no arrays, maps or sets always are. -/
theorem stored_keys_are_snapshots (steps : List Session.Step) :
    let store := (Session.after steps).store
    store.KeyedBy (Session.Entered steps) ∧
      (∀ index, (store.entries index).Pairwise fun first second =>
        store.Current first.stored → store.Current second.stored →
          store.equal first.name second.name = false) ∧
      (∀ index, ∀ element ∈ store.elements index, store.Current element.stored →
        Builtin.apply store .contains [.collection (.set index), element.element] =
          .ok (.bool true, store)) ∧
      (∀ index, ∀ entry ∈ store.entries index,
        (∀ reference, entry.name ≠ .collection reference) → store.Current entry.stored) ∧
      ∀ index, ∀ element ∈ store.elements index,
        (∀ reference, element.element ≠ .collection reference) →
          store.Current element.stored := by
  intro store
  have keyed := Session.after_keyed steps
  refine ⟨keyed, keyed.names_unequal, fun index element => Store.contains_of_current,
    fun index entry member => ?_, fun index element member => ?_⟩
  · exact Store.current_of_not_collection (keyed.maps index) (List.mem_map_of_mem member)
  · exact Store.current_of_not_collection (keyed.sets index) (List.mem_map_of_mem member)

/-- A session that puts an array into a set and then changes it. -/
def Session.changedElement : List Session.Step :=
  [⟨.default, "let a = [1]\nlet s = \x7ba\x7d\npush a 2\ncontains s a", false⟩]

/-- An array that is changed after it was put into a set is held there under a key that it
no longer has, and is not found. -/
theorem changed_element_is_not_found :
    let store := (Session.after Session.changedElement).store
    store.slot? Store.globalFrame "s" = some ⟨some (.collection (.set 0)), false⟩ ∧
      ∃ element ∈ store.elements 0, ¬ store.Current element.stored ∧
        Builtin.has store (.collection (.set 0)) element.element = .ok false := by
  decide +kernel

end Offside
