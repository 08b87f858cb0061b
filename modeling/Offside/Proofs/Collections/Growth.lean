import Offside.Proofs.Bindings.Permanence

namespace Offside

/-!
# Collections grow

A collection stays where it is once it is made, and nothing is ever taken out of it: an array
becomes no shorter, and the keys of a map or of a set stay what they are, with further keys
behind them.  This holds of each effect that an evaluation has on the store, whether the
evaluation goes on to fail or not, and so it holds between any two moments of a session.
-/

namespace Store

/-- Each list of a table stays in its place, and is related to the one that is there later. -/
def Grown {α : Type} (keeps : List α → List α → Prop) (before after : Array (List α)) : Prop :=
  ∀ (index : Nat) (old : List α), before[index]? = some old →
    ∃ new, after[index]? = some new ∧ keeps old new

/-- An array keeps its length or becomes longer. -/
def KeepsLength (old new : List Value) : Prop :=
  old.length ≤ new.length

/-- A map or a set keeps its keys in their order, and may get further ones behind them. -/
def KeepsKeys {α : Type} (key : α → Key) (old new : List α) : Prop :=
  old.map key <+: new.map key

/-- The collections of one store are those of another at a later moment. -/
structure Grows (before after : Store) : Prop where
  arrays : Grown KeepsLength before.arrays after.arrays
  maps : Grown (KeepsKeys MapEntry.key) before.maps after.maps
  sets : Grown (KeepsKeys SetEntry.key) before.sets after.sets

theorem KeepsLength.refl (list : List Value) : KeepsLength list list :=
  Nat.le_refl _

theorem KeepsKeys.refl {α : Type} (key : α → Key) (list : List α) : KeepsKeys key list list :=
  List.prefix_refl _

/-! ## Tables -/

namespace Grown

variable {α : Type} {keeps : List α → List α → Prop} {before between after : Array (List α)}

theorem refl (same : ∀ list, keeps list list) (table : Array (List α)) :
    Grown keeps table table :=
  fun _ old found => ⟨old, found, same old⟩

theorem trans
    (chain : ∀ {first second third}, keeps first second → keeps second third →
      keeps first third)
    (earlier : Grown keeps before between)
    (later : Grown keeps between after) :
    Grown keeps before after := by
  intro index old found
  obtain ⟨middle, foundBetween, first⟩ := earlier index old found
  obtain ⟨new, foundAfter, second⟩ := later index middle foundBetween
  exact ⟨new, foundAfter, chain first second⟩

/-- A new list takes the next place, so the others stay in theirs. -/
theorem push (same : ∀ list, keeps list list) (table : Array (List α)) (added : List α) :
    Grown keeps table (table.push added) := by
  intro index old found
  refine ⟨old, ?_, same old⟩
  rw [Array.getElem?_push, if_neg]
  · exact found
  · rintro rfl
    simp at found

theorem replace
    (same : ∀ list, keeps list list)
    (table : Array (List α))
    (place : Nat)
    {replacement : List α}
    (kept : keeps (table[place]?.getD []) replacement) :
    Grown keeps table (table.setIfInBounds place replacement) := by
  intro index old found
  rw [Array.getElem?_setIfInBounds]
  split
  · rename_i here
    subst here
    rw [found] at kept
    have inside : place < table.size := (Array.getElem?_eq_some_iff.mp found).1
    rw [if_pos inside]
    exact ⟨replacement, rfl, kept⟩
  · exact ⟨old, found, same old⟩

end Grown

/-! ## Stores -/

/-- Entering into a map keeps its keys, and puts a new one behind them. -/
theorem keepsKeys_enter (entries : List MapEntry) (entry : MapEntry) :
    KeepsKeys MapEntry.key entries (enter entries entry) := by
  unfold KeepsKeys
  rcases enter_cases entries entry with ⟨_, added⟩ | ⟨earlier, found, later, rfl, _, put⟩
  · rw [added, List.map_append]
    exact List.prefix_append _ _
  · rw [put]
    simp

/-- Adding to a set keeps its keys, and puts a new one behind them. -/
theorem keepsKeys_adjoin (elements : List SetEntry) (entry : SetEntry) :
    KeepsKeys SetEntry.key elements (adjoin elements entry) := by
  unfold KeepsKeys adjoin
  split
  · exact List.prefix_refl _
  · rw [List.map_append]
    exact List.prefix_append _ _

namespace Grows

variable {before between after : Store}

/-- Frames and functions do not matter. -/
theorem of_same
    (sameArrays : after.arrays = before.arrays)
    (sameMaps : after.maps = before.maps)
    (sameSets : after.sets = before.sets) :
    before.Grows after := by
  constructor
  · rw [sameArrays]
    exact .refl KeepsLength.refl _
  · rw [sameMaps]
    exact .refl (KeepsKeys.refl _) _
  · rw [sameSets]
    exact .refl (KeepsKeys.refl _) _

theorem refl (store : Store) : store.Grows store :=
  of_same rfl rfl rfl

theorem trans (earlier : before.Grows between) (later : between.Grows after) :
    before.Grows after where
  arrays := earlier.arrays.trans Nat.le_trans later.arrays
  maps := earlier.maps.trans List.IsPrefix.trans later.maps
  sets := earlier.sets.trans List.IsPrefix.trans later.sets

theorem addArray (store : Store) (items : List Value) : store.Grows (store.addArray items).2 :=
  { refl store with arrays := .push KeepsLength.refl _ _ }

theorem addMap (store : Store) (entries : List MapEntry) :
    store.Grows (store.addMap entries).2 :=
  { refl store with maps := .push (KeepsKeys.refl _) _ _ }

theorem addSet (store : Store) (elements : List SetEntry) :
    store.Grows (store.addSet elements).2 :=
  { refl store with sets := .push (KeepsKeys.refl _) _ _ }

theorem addFloat (store : Store) (number : Float) : store.Grows (store.addFloat number).2 := by
  unfold Store.addFloat
  split <;> exact of_same rfl rfl rfl

theorem setItems
    (store : Store)
    (index : Nat)
    {items : List Value}
    (longer : (store.items index).length ≤ items.length) :
    store.Grows (store.setItems index items) :=
  { refl store with arrays := .replace KeepsLength.refl _ _ longer }

theorem setEntries (store : Store) (index : Nat) (entry : MapEntry) :
    store.Grows (store.setEntries index (enter (store.entries index) entry)) :=
  { refl store with
    maps := .replace (KeepsKeys.refl _) _ _ (keepsKeys_enter _ entry) }

theorem setElements (store : Store) (index : Nat) (entry : SetEntry) :
    store.Grows (store.setElements index (adjoin (store.elements index) entry)) :=
  { refl store with
    sets := .replace (KeepsKeys.refl _) _ _ (keepsKeys_adjoin _ entry) }

theorem addFrame (store : Store) (label : Text) : store.Grows (store.addFrame label).2 :=
  of_same rfl rfl rfl

theorem addClosure (store : Store) (closure : Closure) :
    store.Grows (store.addClosure closure).2 :=
  of_same rfl rfl rfl

theorem modifyFrame (store : Store) (place : Nat) (change : Frame → Frame) :
    store.Grows (store.modifyFrame place change) :=
  of_same rfl rfl rfl

theorem bind (store : Store) (scope : Scope) (name : Text) (slot : Slot) :
    store.Grows (store.bind scope name slot) := by
  cases scope with
  | nil => exact refl store
  | cons place outer => exact modifyFrame ..

theorem fill (store : Store) (scope : Scope) (name : Text) (value : Value) :
    store.Grows (store.fill scope name value) := by
  cases scope with
  | nil => exact refl store
  | cons place outer => exact modifyFrame ..

end Grows

end Store

/-! ## Builtins and operators -/

/-- `set`, `push` and `insert` let their collection grow; no other builtin changes one. -/
theorem Builtin.apply_grows
    {store after : Store} {function : Builtin} {arguments : List Value} {result : Value}
    (applied : Builtin.apply store function arguments = .ok (result, after)) :
    store.Grows after := by
  cases Builtin.applies_of_apply applied with
  | len | get | contains | str => exact .refl store
  | replace => exact .setItems store _ (by simp)
  | push => exact .setItems store _ (by simp)
  | enter => exact .setEntries store _ _
  | insert => exact .setElements store _ _

/-- An operator makes at most a new array. -/
theorem Operator.Ends.grows
    {machine : Machine} {ending : Evaluation.Ending Value}
    (ends : Operator.Ends machine ending) :
    machine.store.Grows (Evaluation.Ending.machine ending).store := by
  cases ends with
  | answer | refused => exact .refl _
  | array => exact .addArray _ _
  | number => exact .addFloat _ _

namespace Evaluation

/-- Binding parameters changes no collection. -/
theorem bindParameters_grows (scope : Scope) (bindings : List (Text × Value)) (machine : Machine) :
    machine.store.Grows (Ending.machine (bindParameters scope bindings machine)).store :=
  bindParameters_keeps (.refl _) fun _ _ _ _ grows _ => grows.trans (.bind ..)

/-- The call of a function opens a frame and changes no collection. -/
theorem entered_grows
    {name : Text} {scope : Scope} {bindings : List (Text × Value)} {machine : Machine}
    {ending : Ending Unit}
    (ran : bindParameters scope bindings ⟨(machine.store.addFrame name).2, machine.depth⟩ =
      ending) :
    machine.store.Grows (Ending.machine ending).store := by
  rw [← ran]
  exact (Store.Grows.addFrame machine.store name).trans
    (bindParameters_grows scope bindings ⟨_, machine.depth⟩)

variable {limit : Nat}

/-- Whatever an evaluation itself does to the store, its collections grow. -/
theorem Effect.grows
    {call : Call} {before after : Store}
    (effect : Effect limit call before after) :
    before.Grows after := by
  cases effect with
  | float => exact .addFloat _ _
  | array => exact .addArray _ _
  | set => exact .addSet _ _
  | map => exact .addMap _ _
  | operator => exact (Operator.apply_modest _ _ _ _ _).grows
  | function => exact .addClosure _ _
  | block => exact .addFrame _ _
  | assignment => exact .modifyFrame _ _ _
  | functionBinding => exact ((Store.Grows.bind ..).trans (.addClosure ..)).trans (.fill ..)
  | binding | functionStruck => exact .bind ..
  | builtin applied => exact Builtin.apply_grows applied
  | enter => exact entered_grows rfl

/-- Collections grow from the start of an evaluation to its end, with an answer or with a
failure. -/
theorem Evaluates.grows
    {shape : Shape} {site : Site} {task : Task shape} {machine : Machine}
    {ending : Ending shape.Answer}
    (derivation : Evaluates limit site task machine ending) :
    machine.store.Grows (Ending.machine ending).store :=
  derivation.relates .refl .trans fun _ _ _ _ effect => effect.grows

end Evaluation

/-- Collections grow from any moment of a session to any later one. -/
theorem Session.Passes.grows
    {machine : Machine} {moves : List Move} {before after : Store}
    (passes : Passes machine moves before after) :
    before.Grows after := by
  induction passes with
  | refl => exact .refl _
  | tail _ happens hypothesis =>
    obtain ⟨_, _, _, effect⟩ := happens
    exact hypothesis.trans effect.grows

end Offside
