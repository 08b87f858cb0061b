import Offside.Proofs.Collections.Growth
import Offside.Proofs.Sessions.Syntax

namespace Offside

/-!
# The values that a store holds

Values spread: through bindings, through shared collections and through the arguments and
results of calls.  What is to hold of every value of a session is therefore said of all values
that the store holds and of those that an evaluation has at hand, and it may depend on the
store as long as it lasts while collections grow.  Such a property holds throughout a session
if it holds of the few values that evaluations make: integers, lengths and new collections.
-/

variable {elements : List SetEntry} {value : Value}

/-- Whether a value is neither an integer nor a collection. -/
def Value.isPlain : Value → Bool
  | .int _ | .collection _ => false
  | _ => true

/-- A predicate holds of the values that a frame binds. -/
def Frame.Holds (good : Value → Prop) (frame : Frame) : Prop :=
  ∀ name slot, (name, slot) ∈ frame.slots → ∀ value, slot.value = some value → good value

/-- A predicate holds of the name and of the value of a map entry. -/
def MapEntry.Holds (good : Value → Prop) (entry : MapEntry) : Prop :=
  good entry.name ∧ good entry.value

/-- A predicate holds of the element of a set. -/
def SetEntry.Holds (good : Value → Prop) (entry : SetEntry) : Prop :=
  good entry.element

/-- A predicate holds of all items in the lists of a table. -/
def Store.Filled {α : Type} (good : α → Prop) (table : Array (List α)) : Prop :=
  ∀ index : Nat, ∀ item ∈ table[index]?.getD [], good item

/-- A predicate holds of all values that a store holds. -/
structure Store.Holds (good : Value → Prop) (store : Store) : Prop where
  frames : ∀ place frame, store.frame? place = some frame → frame.Holds good
  arrays : Filled good store.arrays
  maps : Filled (MapEntry.Holds good) store.maps
  sets : Filled (SetEntry.Holds good) store.sets

/-- A property of values in a store holds of all values that the store holds. -/
def Store.Upholds (good : Store → Value → Prop) (store : Store) : Prop :=
  store.Holds (good store)

/-- A property of values in a store that lasts while collections grow, and that plain values,
new arrays and the results of integer arithmetic have. -/
structure Lasting (good : Store → Value → Prop) : Prop where
  grows : ∀ {before after : Store} {value : Value},
    good before value → before.Grows after → good after value
  plain : ∀ (store : Store) (value : Value), value.isPlain = true → good store value
  array : ∀ (store : Store) (items : List Value),
    good (store.addArray items).2 (store.addArray items).1
  integer : ∀ (store : Store) (operator : TokenKind) (left right result : Int),
    Integer.apply operator left right = .ok result → good store (.int result)

/-! ## Stores -/

namespace Store.Filled

variable {α : Type} {good : α → Prop} {table : Array (List α)} (filled : Filled good table)
  {items : List α}

include filled

theorem mono {better : α → Prop} (implies : ∀ item, good item → better item) :
    Filled better table :=
  fun index item member => implies item (filled index item member)

theorem push (each : ∀ item ∈ items, good item) : Filled good (table.push items) := by
  intro index
  rcases getD_push table items index with added | known
  · rw [added]
    exact each
  · rw [known]
    exact filled index

theorem replace (place : Nat) (each : ∀ item ∈ items, good item) :
    Filled good (table.setIfInBounds place items) := by
  intro index
  rcases getD_setIfInBounds table place items index with replaced | known
  · rw [replaced]
    exact each
  · rw [known]
    exact filled index

end Store.Filled

/-- Adding an element under a key to those of a set adds no other element. -/
theorem Store.holds_adjoin
    {good : Value → Prop} {entry : SetEntry}
    (each : ∀ other ∈ elements, other.Holds good)
    (added : entry.Holds good) :
    ∀ other ∈ Store.adjoin elements entry, other.Holds good := by
  unfold Store.adjoin
  split
  · exact each
  · exact forall_mem_concat each added

namespace Store.Holds

variable {good : Value → Prop} {store : Store} (holds : store.Holds good)

include holds

theorem mono {better : Value → Prop} (implies : ∀ value, good value → better value) :
    store.Holds better where
  frames place frame found name slot member value isValue :=
    implies value (holds.frames place frame found name slot member value isValue)
  arrays := holds.arrays.mono implies
  maps := holds.maps.mono fun _ both => ⟨implies _ both.1, implies _ both.2⟩
  sets := holds.sets.mono fun _ => implies _

theorem lookup {scope : Scope} {name : Text} (found : store.lookup scope name = .ok value) :
    good value := by
  unfold Store.lookup at found
  split at found
  · cases found
  · next place slot resolved =>
      split at found
      · next isContent =>
          cases found
          obtain ⟨_, bound⟩ := slot?_of_resolve? resolved
          obtain ⟨frame, known, inFrame⟩ := Option.bind_eq_some_iff.mp bound
          obtain ⟨before, after, shape, _⟩ := List.lookup_eq_some_iff.mp inFrame
          refine holds.frames place frame known name slot ?_ value isContent
          simp [shape]
      · cases found

theorem modifyFrame
    {place : Nat} {change : Frame → Frame}
    (changed : ∀ frame, frame.Holds good → (change frame).Holds good) :
    (store.modifyFrame place change).Holds good := by
  refine { holds with frames := fun query frame found => ?_ }
  unfold Store.frame? Store.modifyFrame at found
  rw [Array.getElem?_modify] at found
  split at found
  · obtain ⟨old, known, rfl⟩ := Option.map_eq_some_iff.mp found
    exact changed old (holds.frames query old known)
  · exact holds.frames query frame found

theorem bind
    {slot : Slot}
    (scope : Scope)
    (name : Text)
    (fills : ∀ value, slot.value = some value → good value) :
    (store.bind scope name slot).Holds good := by
  cases scope with
  | nil => exact holds
  | cons place outer =>
    refine holds.modifyFrame fun frame kept bound other member => ?_
    rcases List.mem_append.mp member with known | added
    · exact kept bound other known
    · cases List.mem_singleton.mp added
      exact fills

theorem assign (place : Nat) (name : Text) (filled : good value) :
    (store.modifyFrame place (·.fill name value)).Holds good := by
  refine holds.modifyFrame fun frame kept bound other member content isContent => ?_
  obtain ⟨⟨known, slot⟩, inFrame, same⟩ := List.mem_map.mp member
  simp only at same
  split at same
  · cases same
    cases isContent
    exact filled
  · cases same
    exact kept bound other inFrame content isContent

theorem fill (scope : Scope) (name : Text) (filled : good value) :
    (store.fill scope name value).Holds good := by
  cases scope with
  | nil => exact holds
  | cons place outer => exact holds.assign place name filled

theorem addFrame (label : Text) : (store.addFrame label).2.Holds good := by
  refine { holds with frames := fun query frame found => ?_ }
  unfold Store.frame? Store.addFrame at found
  rw [Array.getElem?_push] at found
  split at found
  · cases found
    intro name slot member
    cases member
  · exact holds.frames query frame found

theorem addFloat (number : Float) : (store.addFloat number).2.Holds good := by
  unfold Store.addFloat
  split
  · exact { holds with }
  · exact holds

theorem addClosure (closure : Closure) : (store.addClosure closure).2.Holds good :=
  { holds with }

theorem addArray {items : List Value} (each : ∀ item ∈ items, good item) :
    (store.addArray items).2.Holds good :=
  { holds with arrays := holds.arrays.push each }

theorem addMap {entries : List MapEntry} (each : ∀ entry ∈ entries, entry.Holds good) :
    (store.addMap entries).2.Holds good :=
  { holds with maps := holds.maps.push each }

theorem addSet (each : ∀ entry ∈ elements, entry.Holds good) :
    (store.addSet elements).2.Holds good :=
  { holds with sets := holds.sets.push each }

theorem setItems {items : List Value} (index : Nat) (each : ∀ item ∈ items, good item) :
    (store.setItems index items).Holds good :=
  { holds with arrays := holds.arrays.replace index each }

theorem enter {entry : MapEntry} (index : Nat) (entered : entry.Holds good) :
    (store.setEntries index (Store.enter (store.entries index) entry)).Holds good := by
  refine { holds with maps := holds.maps.replace index ?_ }
  have each : ∀ other ∈ store.entries index, other.Holds good := holds.maps index
  rcases Store.enter_cases (store.entries index) entry with
      ⟨_, added⟩ | ⟨before, found, after, split, _, put⟩
  · rw [added]
    exact forall_mem_concat each entered
  · rw [put]
    rw [split] at each
    obtain ⟨earlier, later⟩ := List.forall_mem_append.mp each
    have replaced : MapEntry.Holds good ⟨found.key, entry.name, entry.value⟩ := entered
    exact List.forall_mem_append.mpr ⟨earlier, List.forall_mem_cons.mpr
      ⟨replaced, (List.forall_mem_cons.mp later).2⟩⟩

theorem adjoin (index : Nat) (entry : SetEntry) (added : good entry.element) :
    (store.setElements index (Store.adjoin (store.elements index) entry)).Holds good :=
  { holds with sets := holds.sets.replace index (Store.holds_adjoin (holds.sets index) added) }

end Store.Holds

namespace Lasting

variable {good : Store → Value → Prop} (lasting : Lasting good) {store before after : Store}

include lasting

theorem mapEntry
    {entry : MapEntry}
    (holds : entry.Holds (good before))
    (grows : before.Grows after) :
    entry.Holds (good after) :=
  ⟨lasting.grows holds.1 grows, lasting.grows holds.2 grows⟩

theorem setEntry
    {entry : SetEntry}
    (holds : entry.Holds (good before))
    (grows : before.Grows after) :
    entry.Holds (good after) :=
  lasting.grows holds grows

/-- What a store holds has the property in a store that has grown from it, too. -/
theorem later (upholds : before.Upholds good) (grows : before.Grows after) :
    before.Holds (good after) :=
  Store.Holds.mono upholds fun _ here => lasting.grows here grows

section

variable (upholds : store.Upholds good)

include upholds

theorem addFrame (label : Text) : (store.addFrame label).2.Upholds good :=
  (lasting.later upholds (.addFrame store label)).addFrame label

theorem addClosure (closure : Closure) : (store.addClosure closure).2.Upholds good :=
  (lasting.later upholds (.addClosure store closure)).addClosure closure

theorem addFloat (number : Float) :
    good (store.addFloat number).2 (store.addFloat number).1 ∧
      (store.addFloat number).2.Upholds good := by
  refine ⟨lasting.plain _ _ ?_, (lasting.later upholds (.addFloat store number)).addFloat number⟩
  unfold Store.addFloat
  split <;> rfl

theorem addArray {items : List Value} (each : ∀ item ∈ items, good store item) :
    (store.addArray items).2.Upholds good :=
  (lasting.later upholds (.addArray store items)).addArray fun item member =>
    lasting.grows (each item member) (.addArray store items)

theorem addMap {entries : List MapEntry} (each : ∀ entry ∈ entries, entry.Holds (good store)) :
    (store.addMap entries).2.Upholds good :=
  (lasting.later upholds (.addMap store entries)).addMap fun entry member =>
    lasting.mapEntry (each entry member) (.addMap store entries)

theorem addSet (each : ∀ entry ∈ elements, entry.Holds (good store)) :
    (store.addSet elements).2.Upholds good :=
  (lasting.later upholds (.addSet store elements)).addSet fun entry member =>
    lasting.setEntry (each entry member) (.addSet store elements)

theorem bind
    {slot : Slot}
    (scope : Scope)
    (name : Text)
    (fills : ∀ value, slot.value = some value → good store value) :
    (store.bind scope name slot).Upholds good :=
  (lasting.later upholds (.bind store scope name slot)).bind scope name fun value isValue =>
    lasting.grows (fills value isValue) (.bind store scope name slot)

theorem fill (scope : Scope) (name : Text) (filled : good store value) :
    (store.fill scope name value).Upholds good :=
  (lasting.later upholds (.fill store scope name value)).fill scope name
    (lasting.grows filled (.fill store scope name value))

theorem assign (place : Nat) (name : Text) (filled : good store value) :
    (store.modifyFrame place (·.fill name value)).Upholds good :=
  (lasting.later upholds (.modifyFrame store place (·.fill name value))).assign place name
    (lasting.grows filled (.modifyFrame store place (·.fill name value)))

/-! ## Builtins -/

theorem element
    {context : String} {collection key : Value}
    (found : Builtin.element context store collection key = .ok value) :
    good store value := by
  unfold Builtin.element at found
  split at found
  · next index =>
      obtain ⟨place, located, returned⟩ := RuntimeCause.of_bind_ok found
      cases returned
      rw [List.getD_eq_getElem?_getD]
      cases isItem : (store.items index)[place]? with
      | none => exact lasting.plain _ _ rfl
      | some item => exact upholds.arrays index item (List.mem_of_getElem? isItem)
  · obtain ⟨place, located, returned⟩ := RuntimeCause.of_bind_ok found
    cases returned
    exact lasting.plain _ _ rfl
  · next index =>
      split at found
      · next entry isEntry =>
          cases found
          exact (upholds.maps index entry (List.mem_of_find?_eq_some isEntry)).2
      · cases found
  · cases found

/-- A builtin gives a value with the property and leaves such values, if the length that it
gives has the property. -/
theorem apply
    {function : Builtin} {arguments : List Value} {result : Value}
    (each : ∀ argument ∈ arguments, good store argument)
    (sized : ∀ value size, function = .len → arguments = [value] →
      Builtin.length store value = .ok size → good store (.int size))
    (applied : Builtin.apply store function arguments = .ok (result, after)) :
    good after result ∧ after.Upholds good := by
  have grows := Builtin.apply_grows applied
  have kept := lasting.later upholds grows
  have goodAfter {argument : Value} (member : argument ∈ arguments) : good after argument :=
    lasting.grows (each argument member) grows
  cases Builtin.applies_of_apply applied with
  | len measured => exact ⟨sized _ _ rfl rfl measured, upholds⟩
  | get found => exact ⟨lasting.element upholds found, upholds⟩
  | contains | str => exact ⟨lasting.plain _ _ rfl, upholds⟩
  | replace =>
    refine ⟨goodAfter (List.mem_cons_self ..), kept.setItems _ fun item member => ?_⟩
    rcases List.mem_or_eq_of_mem_set member with known | rfl
    · exact kept.arrays _ item known
    · exact goodAfter (by simp)
  | enter =>
    exact ⟨goodAfter (List.mem_cons_self ..),
      kept.enter _ ⟨goodAfter (by simp), goodAfter (by simp)⟩⟩
  | push =>
    exact ⟨goodAfter (List.mem_cons_self ..),
      kept.setItems _ (forall_mem_concat (kept.arrays _) (goodAfter (by simp)))⟩
  | insert => exact ⟨goodAfter (List.mem_cons_self ..), kept.adjoin _ _ (goodAfter (by simp))⟩

end

end Lasting

namespace Evaluation

section

variable (good : Store → Value → Prop)

/-- An answer is made of values that have a property in a store. -/
def Shape.Holds (store : Store) : (shape : Shape) → shape.Answer → Prop
  | .value, answer => good store answer
  | .values, answers => ∀ answer ∈ answers, good store answer
  | .members, gathered => ∀ entry ∈ gathered, SetEntry.Holds (good store) entry
  | .entries, gathered => ∀ entry ∈ gathered, MapEntry.Holds (good store) entry
  | .last, answer => ∀ value, answer = some value → good store value

/-- The values that an evaluation ends with have a property. -/
def Ending.Upholds (shape : Shape) : Ending shape.Answer → Prop
  | .ok answer after => shape.Holds good after.store answer ∧ after.store.Upholds good
  | .error _ after => after.store.Upholds good

/-- The values that a task has at hand have a property in a store. -/
def Task.Holds (store : Store) : {shape : Shape} → Task shape → Prop
  | _, .members known _ => ∀ entry ∈ known, entry.Holds (good store)
  | _, .entries known _ => ∀ entry ∈ known, entry.Holds (good store)
  | _, .stmts last _ => ∀ value, last = some value → good store value
  | _, .apply _ _ _ arguments => ∀ argument ∈ arguments, good store argument
  | _, _ => True

/-- All values that an evaluation starts with have a property. -/
structure Call.Upholds (call : Call) : Prop where
  task : call.task.Holds good call.machine.store
  store : call.machine.store.Upholds good

/-- The values that an evaluation itself makes have a property, as far as it takes more than
that the property lasts: integer literals, lengths, and the sets and maps of literals. -/
def Call.Makes (limit : Nat) : Call → Prop
  | ⟨_, _, .expr (.int _ number), machine⟩ => good machine.store (.int number)
  | ⟨_, site, .expr (.set _ elements), machine⟩ => ∀ gathered after,
      Evaluates limit (site.inside 2) (.members [] elements) machine (.ok gathered after) →
      good (after.store.addSet gathered).2 (after.store.addSet gathered).1
  | ⟨_, site, .expr (.map _ pairs), machine⟩ => ∀ gathered after,
      Evaluates limit (site.inside 2) (.entries [] pairs) machine (.ok gathered after) →
      good (after.store.addMap gathered).2 (after.store.addMap gathered).1
  | ⟨_, _, .apply _ _ (.builtin .len) [value], machine⟩ =>
    ∀ size, Builtin.length machine.store value = .ok size → good machine.store (.int size)
  | _ => True

end

variable {good : Store → Value → Prop}

theorem holds_none {store : Store} (value : Value) (isValue : none = some value) :
    good store value := by
  cases isValue

theorem Ending.Upholds.check
    {span : Option Span} {result : Except RuntimeCause Value} {machine : Machine}
    (upholds : machine.store.Upholds good)
    (passed : ∀ value, result = .ok value → good machine.store value) :
    Ending.Upholds good .value (Action.check span result machine) := by
  cases result with
  | ok value => exact ⟨passed value rfl, upholds⟩
  | error cause => exact upholds

theorem Ending.Upholds.store
    {shape : Shape} {ending : Ending shape.Answer}
    (upholds : Ending.Upholds good shape ending) :
    (Ending.machine ending).store.Upholds good := by
  cases ending with
  | ok answer after => exact upholds.2
  | error reason after => exact upholds

end Evaluation

/-! ## Operators -/

namespace Operator

open Evaluation (Ending)

variable {good : Store → Value → Prop}

/-- Whether an action gives values with a property, on every machine that has such values. -/
def Preserves (good : Store → Value → Prop) (action : Action Value) : Prop :=
  ∀ machine, machine.store.Upholds good → Ending.Upholds good .value (action machine)

variable (lasting : Lasting good)

include lasting

/-- An operator gives a value with the property, whatever its operands are. -/
theorem apply_preserves (operator : TokenKind) (span : Span) (left right : Value) :
    Preserves good (apply operator span left right) := by
  have applies := applies_apply operator span left right
  generalize apply operator span left right = action at applies ⊢
  intro machine upholds
  cases applies with
  | compared | ordered | texts => exact ⟨lasting.plain _ _ rfl, upholds⟩
  | arrays first second =>
    have both := List.forall_mem_append.mpr ⟨upholds.arrays first, upholds.arrays second⟩
    exact ⟨lasting.array _ _, lasting.addArray upholds both⟩
  | integers first second =>
    cases applied : Integer.apply operator first second with
    | ok value => exact ⟨lasting.integer _ operator first second value applied, upholds⟩
    | error cause => exact upholds
  | floats => exact lasting.addFloat upholds _
  | floatsFail | refused => exact upholds

end Operator

end Offside
