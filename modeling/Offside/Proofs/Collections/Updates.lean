import Offside.Proofs.Keys.Structure
import Offside.Proofs.Values.Occurrences

namespace Offside

/-!
# Updates of collections

`set`, `push` and `insert` change the contents of one collection and leave the rest of the store
as it is.  Keys and displays are read off the store that is being changed, but those of a value
from which the collection cannot be reached are read off the rest of it.  So what is looked up
under such a value is found as in a table: `set` changes the answer under its own key only, and
`insert` adds its own element only.
-/

namespace Store

/-- A collection has the same contents in two stores. -/
def SameContents (before after : Store) : Reference → Prop
  | .array index => after.items index = before.items index
  | .map index => after.entries index = before.entries index
  | .set index => after.elements index = before.elements index

/-- Two stores are the same but for the contents of one collection. -/
structure SameBut (before : Store) (reference : Reference) (after : Store) : Prop where
  frames : after.frames = before.frames
  closures : after.closures = before.closures
  occurrences : after.occurrences = before.occurrences
  references : after.references = before.references
  others : ∀ other, other ≠ reference → before.SameContents after other

theorem SameContents.members_eq
    {before after : Store} {reference : Reference}
    (same : before.SameContents after reference) :
    after.members reference = before.members reference := by
  cases reference with
  | array index => exact same
  | map index =>
    have entries : after.entries index = before.entries index := same
    rw [members, members, entries]
  | set index =>
    have elements : after.elements index = before.elements index := same
    rw [members, members, elements]

/-! ## Replaced contents -/

section

variable {α : Type} (table : Array (List α)) {index : Nat}

theorem getD_setIfInBounds_self (inside : index < table.size) (replacement : List α) :
    (table.setIfInBounds index replacement)[index]?.getD [] = replacement := by
  rw [Array.getElem?_setIfInBounds_self_of_lt inside, Option.getD_some]

theorem getD_setIfInBounds_of_ne {query : Nat} (other : query ≠ index) (replacement : List α) :
    (table.setIfInBounds index replacement)[query]?.getD [] = table[query]?.getD [] := by
  rw [Array.getElem?_setIfInBounds_ne other.symm]

end

section

variable (store : Store) {index : Nat}

theorem items_setItems (present : .array index ∈ store.references) (items : List Value) :
    (store.setItems index items).items index = items :=
  getD_setIfInBounds_self _ (by simpa [references] using present) _

theorem entries_setEntries_self
    (present : .map index ∈ store.references)
    (entries : List MapEntry) :
    (store.setEntries index entries).entries index = entries :=
  getD_setIfInBounds_self _ (by simpa [references] using present) _

theorem elements_setElements_self
    (present : .set index ∈ store.references)
    (elements : List SetEntry) :
    (store.setElements index elements).elements index = elements :=
  getD_setIfInBounds_self _ (by simpa [references] using present) _

end

namespace SameBut

theorem setItems (store : Store) (index : Nat) (items : List Value) :
    store.SameBut (.array index) (store.setItems index items) where
  frames := rfl
  closures := rfl
  occurrences := rfl
  references := by simp [Store.references, Store.setItems]
  others other different := by
    cases other with
    | array query =>
      exact getD_setIfInBounds_of_ne _ (fun same => different (congrArg _ same)) items
    | map | set => rfl

theorem setEntries (store : Store) (index : Nat) (entries : List MapEntry) :
    store.SameBut (.map index) (store.setEntries index entries) where
  frames := rfl
  closures := rfl
  occurrences := rfl
  references := by simp [Store.references, Store.setEntries]
  others other different := by
    cases other with
    | map query =>
      exact getD_setIfInBounds_of_ne _ (fun same => different (congrArg _ same)) entries
    | array | set => rfl

theorem setElements (store : Store) (index : Nat) (elements : List SetEntry) :
    store.SameBut (.set index) (store.setElements index elements) where
  frames := rfl
  closures := rfl
  occurrences := rfl
  references := by simp [Store.references, Store.setElements]
  others other different := by
    cases other with
    | set query =>
      exact getD_setIfInBounds_of_ne _ (fun same => different (congrArg _ same)) elements
    | array | map => rfl

/-! ## Keys and displays of what is apart from a change -/

variable {store after : Store} {reference : Reference} {value : Value}

theorem collectionCount_eq (same : store.SameBut reference after) :
    after.collectionCount = store.collectionCount := by
  rw [← length_references, ← length_references, same.references]

/-- From a value apart from a collection one gets to no other value that is not. -/
theorem sameContents_of_not_reaches
    (same : store.SameBut reference after)
    {other : Reference}
    (apart : ¬ store.Reaches (.collection other) (.collection reference)) :
    store.SameContents after other := by
  refine same.others other ?_
  rintro rfl
  exact apart .refl

/-- The key of a value does not depend on a collection that it does not reach. -/
theorem keyAlong_eq
    (same : store.SameBut reference after)
    (apart : ¬ store.Reaches value (.collection reference))
    (room : Nat)
    (path : List Reference) :
    after.keyAlong room path value = store.keyAlong room path value := by
  induction room generalizing path value with
  | zero => cases value <;> simp only [keyAlong]
  | succ room hypothesis =>
    cases value with
    | collection other =>
      by_cases onPath : other ∈ path
      · rw [keyAlong_of_mem onPath, keyAlong_of_mem onPath]
      have contents := same.sameContents_of_not_reaches apart
      have inside (member : Value) (isMember : member ∈ store.members other) :
          after.keyAlong room (other :: path) member =
            store.keyAlong room (other :: path) member :=
        hypothesis (fun reaches => apart (.head isMember reaches)) _
      rw [keyAlong, keyAlong, if_neg onPath, if_neg onPath]
      cases other with
      | array index =>
        have items : after.items index = store.items index := contents
        simp only [items]
        exact congrArg Key.array (List.map_congr_left inside)
      | map index =>
        have entries : after.entries index = store.entries index := contents
        simp only [entries]
        rw [List.map_congr_left fun entry isEntry => by
          rw [inside entry.value (value_mem_members isEntry)]]
      | set index =>
        have elements : after.elements index = store.elements index := contents
        simp only [elements]
    | _ => simp only [keyAlong]

/-- Nor does its display. -/
theorem displayAlong_eq
    (same : store.SameBut reference after)
    (apart : ¬ store.Reaches value (.collection reference))
    (room : Nat)
    (path : List Reference)
    (nested : Bool) :
    after.displayAlong room path nested value = store.displayAlong room path nested value := by
  induction room generalizing path nested value with
  | zero => cases value <;> simp only [displayAlong, scalarText, closureText, same.closures]
  | succ room hypothesis =>
    cases value with
    | collection other =>
      by_cases onPath : other ∈ path
      · rw [displayAlong_of_mem onPath, displayAlong_of_mem onPath]
      rw [displayAlong_of_not_mem onPath, displayAlong_of_not_mem onPath,
        (same.sameContents_of_not_reaches apart).members_eq]
      refine congrArg _ (List.map_congr_left fun member isMember => ?_)
      exact hypothesis (fun reaches => apart (.head isMember reaches)) _ _
    | _ => simp only [displayAlong, scalarText, closureText, same.closures]

theorem key_eq
    (same : store.SameBut reference after)
    (apart : ¬ store.Reaches value (.collection reference)) :
    after.key value = store.key value := by
  rw [key_eq_keyAlong, key_eq_keyAlong, same.collectionCount_eq, same.keyAlong_eq apart]

theorem displayNested_eq
    (same : store.SameBut reference after)
    (apart : ¬ store.Reaches value (.collection reference)) :
    after.displayNested value = store.displayNested value := by
  rw [displayNested_eq_displayAlong, displayNested_eq_displayAlong, same.collectionCount_eq,
    same.displayAlong_eq apart]

end SameBut

theorem equal_eq_same_key (store : Store) (left right : Value) :
    store.equal left right = (store.key left).same (store.key right) :=
  Bool.eq_iff_iff.mpr equal_iff_same_key

theorem SameBut.equal_eq
    {store after : Store} {reference : Reference} {left right : Value}
    (same : store.SameBut reference after)
    (leftApart : ¬ store.Reaches left (.collection reference))
    (rightApart : ¬ store.Reaches right (.collection reference)) :
    after.equal left right = store.equal left right := by
  rw [equal_eq_same_key, equal_eq_same_key, same.key_eq leftApart, same.key_eq rightApart]

/-! ## Maps and sets as tables -/

/-- Entering into a map changes what is found under its own key only. -/
theorem entryAt?_enter (entries : List MapEntry) (entry : MapEntry) (key : Key) :
    (entryAt? (enter entries entry) key).map (·.value) =
      if entry.key.same key then some entry.value
      else (entryAt? entries key).map (·.value) := by
  induction entries with
  | nil => cases found : entry.key.same key <;> simp [enter, entryAt?, found]
  | cons first rest hypothesis =>
    unfold entryAt? at hypothesis ⊢
    rw [enter]
    split
    · next replaced =>
        -- The entry that is replaced is found under the keys under which the new one is.
        have alike : first.key.same key = entry.key.same key :=
          Bool.eq_iff_iff.mpr
            ⟨Key.same_trans (Key.same_symm replaced), Key.same_trans replaced⟩
        cases found : entry.key.same key <;> simp [alike, found]
    · next kept =>
        cases found : first.key.same key with
        | true =>
          have different : ¬ entry.key.same key = true := fun same =>
            kept (Key.same_trans found (Key.same_symm same))
          simp [found, different]
        | false => simpa [found] using hypothesis

/-- A map gets longer if nothing was under the key. -/
theorem length_enter (entries : List MapEntry) (entry : MapEntry) :
    (enter entries entry).length =
      if entries.any (·.key.same entry.key) then entries.length else entries.length + 1 := by
  rcases enter_cases entries entry with ⟨fresh, added⟩ | ⟨before, found, after, rfl, hit, put⟩
  · have absent : entries.any (·.key.same entry.key) = false := by
      simpa using fresh
    rw [added, absent, List.length_append]
    rfl
  · have present : (before ++ found :: after).any (·.key.same entry.key) = true := by
      simp [hit]
    rw [put, present]
    simp

/-- Adding to a set adds its own key only. -/
theorem any_adjoin (elements : List SetEntry) (entry : SetEntry) (key : Key) :
    (adjoin elements entry).any (·.key.same key) =
      (elements.any (·.key.same key) || entry.key.same key) := by
  unfold adjoin
  split
  · next held =>
      obtain ⟨other, isElement, same⟩ := List.any_eq_true.mp held
      cases found : entry.key.same key with
      | true =>
        rw [Bool.or_true]
        exact List.any_eq_true.mpr ⟨other, isElement, Key.same_trans same found⟩
      | false => rw [Bool.or_false]
  · simp

/-- A set gets longer if it did not hold the key. -/
theorem length_adjoin (elements : List SetEntry) (entry : SetEntry) :
    (adjoin elements entry).length =
      if elements.any (·.key.same entry.key) then elements.length else elements.length + 1 := by
  unfold adjoin
  split <;> simp

end Store

/-! ## Builtins -/

namespace Builtin

/-- What a builtin answers. -/
def answer (store : Store) (function : Builtin) (arguments : List Value) :
    Except RuntimeCause Value :=
  (apply store function arguments).map Prod.fst

variable {store after : Store} {reference : Reference} {collection key value other : Value}

theorem answer_get (store : Store) (collection key : Value) :
    answer store .get [collection, key] = element "get" store collection key := by
  show (element "get" store collection key >>= fun found => pure (found, store)).map Prod.fst = _
  cases element "get" store collection key <;> rfl

theorem answer_len {size : Nat} (isLength : length store collection = .ok size) :
    answer store .len [collection] = .ok (.int size) := by
  show (length store collection >>= fun size => pure (Value.int size, store)).map Prod.fst = _
  rw [isLength]
  rfl

theorem answer_contains {held : Bool} (isHeld : has store collection value = .ok held) :
    answer store .contains [collection, value] = .ok (.bool held) := by
  show (has store collection value >>= fun held => pure (Value.bool held, store)).map Prod.fst = _
  rw [isHeld]
  rfl

/-- The indices that are accepted are those of the elements. -/
theorem elementIndex_eq_ok_iff {context : String} {length place : Nat} :
    elementIndex context length key = .ok place ↔ key = .int place ∧ place < length := by
  constructor
  · intro accepted
    unfold elementIndex at accepted
    split at accepted
    · split at accepted
      · next inRange =>
          cases accepted
          exact ⟨congrArg Value.int (Int.toNat_of_nonneg inRange.1).symm, by omega⟩
      · cases accepted
    · cases accepted
  · rintro ⟨rfl, inside⟩
    have inRange : (0 : Int) ≤ place ∧ (place : Int) < length := by omega
    rw [elementIndex, if_pos inRange, Int.toNat_natCast]

/-- `set` replaces an element of an array, or enters a value into a map. -/
theorem of_replace_ok (replaced : replace store collection key value = .ok after) :
    (∃ index place : Nat, collection = .collection (.array index) ∧ key = .int place ∧
        place < (store.items index).length ∧
        after = store.setItems index ((store.items index).set place value)) ∨
      ∃ index, collection = .collection (.map index) ∧
        after = store.setEntries index
          (Store.enter (store.entries index) ⟨store.key key, key, value⟩) := by
  unfold replace at replaced
  split at replaced
  · obtain ⟨place, accepted, returned⟩ := RuntimeCause.of_bind_ok replaced
    cases returned
    obtain ⟨isIndex, inside⟩ := elementIndex_eq_ok_iff.mp accepted
    exact .inl ⟨_, place, rfl, isIndex, inside, rfl⟩
  · cases replaced
    exact .inr ⟨_, rfl, rfl⟩
  · cases replaced

/-- Only an integer is equal to an integer. -/
theorem equal_int_iff {number : Int} :
    store.equal (.int number) other = true ↔ other = .int number := by
  rw [Store.equal_iff_same_key,
    Store.same_key_iff_of_not_collection fun _ same => Value.noConfusion same]
  constructor
  · intro structured
    cases structured
    rfl
  · rintro rfl
    exact .int number

/-- `set` on an array changes the element at its own index only. -/
theorem element_setItems
    {index place : Nat}
    (present : .array index ∈ store.references)
    (inside : place < (store.items index).length)
    (context : String)
    (value other : Value) :
    element context (store.setItems index ((store.items index).set place value))
        (.collection (.array index)) other =
      if store.equal (.int place) other then .ok value
      else element context store (.collection (.array index)) other := by
  simp only [element, store.items_setItems present, List.length_set]
  cases accepted : elementIndex context (store.items index).length other with
  | error cause =>
    rw [if_neg]
    · rfl
    · intro equal
      rw [elementIndex_eq_ok_iff.mpr ⟨equal_int_iff.mp equal, inside⟩] at accepted
      cases accepted
  | ok found =>
    obtain ⟨rfl, isInside⟩ := elementIndex_eq_ok_iff.mp accepted
    by_cases here : place = found
    · subst here
      rw [if_pos (equal_int_iff.mpr rfl)]
      show Except.ok _ = _
      rw [List.getD_eq_getElem?_getD, List.getElem?_set_self inside, Option.getD_some]
    · have notEqual : ¬ store.equal (.int place) (.int found) = true := fun equal =>
        here (Int.ofNat.inj (Value.int.inj (equal_int_iff.mp equal)).symm)
      rw [if_neg notEqual]
      show Except.ok _ = Except.ok _
      rw [List.getD_eq_getElem?_getD, List.getElem?_set_ne here, List.getD_eq_getElem?_getD]

theorem element_map (context : String) (store : Store) (index : Nat) (key : Value) :
    element context store (.collection (.map index)) key =
      ((Store.entryAt? (store.entries index) (store.key key)).map (·.value)).elim
        (.error (.missingKey context (store.displayNested key))) .ok := by
  rw [element]
  cases Store.entryAt? (store.entries index) (store.key key) <;> rfl

/-- After `set`, `get` gives the new value under the key that was set, and under every other
key what it gave before. -/
theorem element_replace
    (replaced : replace store (.collection reference) key value = .ok after)
    (present : reference ∈ store.references)
    (apart : ¬ store.Reaches other (.collection reference))
    (context : String) :
    element context after (.collection reference) other =
      if store.equal key other then .ok value
      else element context store (.collection reference) other := by
  rcases of_replace_ok replaced with ⟨index, place, isArray, rfl, inside, rfl⟩ |
      ⟨index, isMap, rfl⟩
  · cases isArray
    exact element_setItems present inside context value other
  · cases isMap
    have same := Store.SameBut.setEntries store index
      (Store.enter (store.entries index) ⟨store.key key, key, value⟩)
    rw [element_map, element_map, store.entries_setEntries_self present, same.key_eq apart,
      same.displayNested_eq apart, Store.entryAt?_enter, store.equal_eq_same_key]
    split <;> rfl

/-- `set` makes its collection longer by one exactly if that is a map without the key. -/
theorem length_replace
    (replaced : replace store (.collection reference) key value = .ok after)
    (present : reference ∈ store.references) :
    ∃ (size : Nat) (held : Bool),
      length store (.collection reference) = .ok size ∧
      has store (.collection reference) key = .ok held ∧
      length after (.collection reference) =
        .ok (if reference.kind = .map ∧ held = false then size + 1 else size) := by
  rcases of_replace_ok replaced with ⟨index, place, isArray, rfl, inside, rfl⟩ |
      ⟨index, isMap, rfl⟩
  · cases isArray
    refine ⟨_, _, rfl, rfl, ?_⟩
    rw [length, store.items_setItems present, List.length_set, if_neg]
    rintro ⟨isMap, -⟩
    cases isMap
  · cases isMap
    refine ⟨_, _, rfl, rfl, ?_⟩
    rw [length, store.entries_setEntries_self present, Store.length_enter]
    cases (store.entries index).any (·.key.same (store.key key)) <;> rfl

/-- After `insert`, `contains` finds the new element and what it found before. -/
theorem has_setElements
    {index : Nat}
    (present : .set index ∈ store.references)
    (value : Value)
    (apart : ¬ store.Reaches other (.collection (.set index))) :
    ∃ held : Bool,
      has store (.collection (.set index)) other = .ok held ∧
      has (store.setElements index
          (Store.adjoin (store.elements index) ⟨store.key value, value⟩))
        (.collection (.set index)) other = .ok (held || store.equal other value) := by
  have same := Store.SameBut.setElements store index
    (Store.adjoin (store.elements index) ⟨store.key value, value⟩)
  have turned : (store.key value).same (store.key other) = store.equal other value := by
    rw [store.equal_eq_same_key]
    exact Bool.eq_iff_iff.mpr ⟨Key.same_symm, Key.same_symm⟩
  refine ⟨_, rfl, ?_⟩
  simp only [has, store.elements_setElements_self present, same.key_eq apart, Store.any_adjoin,
    turned]

/-- `insert` makes its set longer by one exactly if the element was absent. -/
theorem length_setElements {index : Nat} (present : .set index ∈ store.references) (value : Value) :
    ∃ (size : Nat) (held : Bool),
      length store (.collection (.set index)) = .ok size ∧
      has store (.collection (.set index)) value = .ok held ∧
      length (store.setElements index
          (Store.adjoin (store.elements index) ⟨store.key value, value⟩))
        (.collection (.set index)) = .ok (if held then size else size + 1) := by
  refine ⟨_, _, rfl, rfl, ?_⟩
  rw [length, store.elements_setElements_self present, Store.length_adjoin]

/-- A builtin changes at most the collection that is its first argument. -/
theorem apply_sameBut
    {function : Builtin} {arguments : List Value} {result : Value}
    (applied : apply store function arguments = .ok (result, after)) :
    after = store ∨ ∃ reference rest, arguments = .collection reference :: rest ∧
      store.SameBut reference after := by
  cases applies_of_apply applied with
  | len | get | contains | str => exact .inl rfl
  | replace | push => exact .inr ⟨_, _, rfl, .setItems ..⟩
  | enter => exact .inr ⟨_, _, rfl, .setEntries ..⟩
  | insert => exact .inr ⟨_, _, rfl, .setElements ..⟩

end Builtin

/-- A call of a builtin that fails leaves the machine as it is. -/
theorem Evaluation.of_callBuiltin_error
    {span : Span} {name : Text} {function : Builtin} {arguments : List Value}
    {machine after : Machine} {failure : Failure}
    (failed : callBuiltin span name function arguments machine = .error failure after) :
    after = machine := by
  unfold callBuiltin at failed
  split at failed
  · cases failed
    rfl
  rw [Action.store_bind_run] at failed
  cases applied : Builtin.apply machine.store function arguments with
  | error cause =>
    rw [applied] at failed
    cases failed
    rfl
  | ok answer =>
    rw [applied] at failed
    cases failed

/-! ## The laws -/

namespace Store

/-- A store after a value was set under a key of a collection. -/
structure HasSet (before : Store) (reference : Reference) (key value : Value) (after : Store) :
    Prop where
  /-- `get` gives the value under the key, and under other keys what it gave before. -/
  found : ∀ other, ¬ before.Reaches other (.collection reference) →
    Builtin.answer after .get [.collection reference, other] =
      if before.equal key other then .ok value
      else Builtin.answer before .get [.collection reference, other]
  /-- A map without the key has become longer by one, any other collection no longer. -/
  grown : ∃ (size : Nat) (held : Bool),
    Builtin.answer before .len [.collection reference] = .ok (.int size) ∧
    Builtin.answer before .contains [.collection reference, key] = .ok (.bool held) ∧
    Builtin.answer after .len [.collection reference] =
      .ok (.int (if reference.kind = .map ∧ held = false then size + 1 else size : Nat))
  /-- Everything else is as it was. -/
  rest : before.SameBut reference after

/-- A store after an element was inserted into a set. -/
structure HasInserted (before : Store) (reference : Reference) (value : Value) (after : Store) :
    Prop where
  /-- `contains` finds the element and what it found before. -/
  found : ∀ other, ¬ before.Reaches other (.collection reference) →
    ∃ held : Bool,
      Builtin.answer before .contains [.collection reference, other] = .ok (.bool held) ∧
      Builtin.answer after .contains [.collection reference, other] =
        .ok (.bool (held || before.equal other value))
  /-- The set has become longer by one if the element was absent. -/
  grown : ∃ (size : Nat) (held : Bool),
    Builtin.answer before .len [.collection reference] = .ok (.int size) ∧
    Builtin.answer before .contains [.collection reference, value] = .ok (.bool held) ∧
    Builtin.answer after .len [.collection reference] =
      .ok (.int (if held then size else size + 1 : Nat))
  /-- Everything else is as it was. -/
  rest : before.SameBut reference after

variable {store after : Store} {reference : Reference}

theorem hasSet_of_apply
    {key value result : Value}
    (present : reference ∈ store.references)
    (applied : Builtin.apply store .set [.collection reference, key, value] =
      .ok (result, after)) :
    store.HasSet reference key value after := by
  obtain ⟨_, replaced, returned⟩ := RuntimeCause.of_bind_ok applied
  cases returned
  refine ⟨fun other apart => ?_, ?_, ?_⟩
  · rw [Builtin.answer_get, Builtin.answer_get]
    exact Builtin.element_replace replaced present apart "get"
  · obtain ⟨size, held, isSize, isHeld, isGrown⟩ := Builtin.length_replace replaced present
    exact ⟨size, held, Builtin.answer_len isSize, Builtin.answer_contains isHeld,
      Builtin.answer_len isGrown⟩
  · rcases Builtin.of_replace_ok replaced with ⟨_, _, isArray, _, _, rfl⟩ | ⟨_, isMap, rfl⟩
    · cases isArray
      exact .setItems ..
    · cases isMap
      exact .setEntries ..

theorem hasInserted_setElements
    {index : Nat}
    (present : .set index ∈ store.references)
    (value : Value) :
    store.HasInserted (.set index) value
      (store.setElements index (adjoin (store.elements index) ⟨store.key value, value⟩)) := by
  refine ⟨fun other apart => ?_, ?_, .setElements ..⟩
  · obtain ⟨held, before, after⟩ := Builtin.has_setElements present value apart
    exact ⟨held, Builtin.answer_contains before, Builtin.answer_contains after⟩
  · obtain ⟨size, held, isSize, isHeld, isGrown⟩ := Builtin.length_setElements present value
    exact ⟨size, held, Builtin.answer_len isSize, Builtin.answer_contains isHeld,
      Builtin.answer_len isGrown⟩

end Store

/-- In every store, a `set` that succeeds changes what is found under its own key only and makes
a map without the key longer by one; an `insert` into a set adds its own element only and makes
the set longer by one if the element was absent.  Under values from which the collection cannot
be reached, equality is the same before and after.  A builtin changes at most the collection
that is its first argument, and one that fails changes nothing. -/
theorem builtins_obey_store_laws (store : Store) :
    (∀ reference ∈ store.references, ∀ (key value result : Value) (after : Store),
      Builtin.apply store .set [.collection reference, key, value] = .ok (result, after) →
        store.HasSet reference key value after) ∧
      (∀ (index : Nat) (value : Value), .set index ∈ store.references →
        ∃ after, Builtin.apply store .insert [.collection (.set index), value] =
            .ok (.collection (.set index), after) ∧
          store.HasInserted (.set index) value after) ∧
      (∀ (function : Builtin) (arguments : List Value) (result : Value) (after : Store),
        Builtin.apply store function arguments = .ok (result, after) →
          after = store ∨ ∃ reference rest, arguments = .collection reference :: rest ∧
            store.SameBut reference after ∧
            ∀ left right, ¬ store.Reaches left (.collection reference) →
              ¬ store.Reaches right (.collection reference) →
                after.equal left right = store.equal left right) ∧
      ∀ (span : Span) (name : Text) (function : Builtin) (arguments : List Value) (depth : Nat)
        (failure : Failure) (after : Machine),
        Evaluation.callBuiltin span name function arguments ⟨store, depth⟩ =
            .error failure after →
          after = ⟨store, depth⟩ := by
  refine ⟨fun reference present key value result after => Store.hasSet_of_apply present,
    fun index value present => ⟨_, rfl, Store.hasInserted_setElements present value⟩,
    fun function arguments result after applied => ?_,
    fun span name function arguments depth failure after => Evaluation.of_callBuiltin_error⟩
  rcases Builtin.apply_sameBut applied with unchanged | ⟨reference, rest, isFirst, same⟩
  · exact .inl unchanged
  · exact .inr ⟨reference, rest, isFirst, same, fun left right => same.equal_eq⟩

/-- An array that is equal to a name of the map and to an element of the set stands for it: the
value is set under the name that is there, the element is not added, and the string has no entry
to be found. -/
theorem builtins_obey_store_laws_reordered :
    (¬ Store.reordered.Reaches (.collection (.array 0)) (.collection (.map 0)) ∧
      ∃ after, Builtin.apply Store.reordered .set
            [.collection (.map 0), .collection (.array 1), .bool false] =
          .ok (.collection (.map 0), after) ∧
        Store.reordered.HasSet (.map 0) (.collection (.array 1)) (.bool false) after ∧
        Builtin.answer after .get [.collection (.map 0), .collection (.array 0)] =
          .ok (.bool false)) ∧
      (¬ Store.reordered.Reaches (.collection (.array 1)) (.collection (.set 0)) ∧
        ∃ after, Builtin.apply Store.reordered .insert
              [.collection (.set 0), .collection (.array 1)] =
            .ok (.collection (.set 0), after) ∧
          Store.reordered.HasInserted (.set 0) (.collection (.array 1)) after ∧
          Builtin.answer after .contains [.collection (.set 0), .collection (.array 1)] =
            .ok (.bool true)) ∧
      ∃ failure, Evaluation.callBuiltin ⟨none, ⟨1, 1, 0⟩, ⟨1, 1, 0⟩⟩ "get" .get
          [.collection (.map 0), .str "a"] ⟨Store.reordered, 0⟩ =
        .error failure ⟨Store.reordered, 0⟩ := by
  have apart {value : Value} {reference : Reference}
      (below : Store.reorderedRank value < Store.reorderedRank (.collection reference)) :
      ¬ Store.reordered.Reaches value (.collection reference) :=
    Store.not_reaches_of_rank Store.reorderedRank (by decide) below
  obtain ⟨set, insert, -, failed⟩ := builtins_obey_store_laws Store.reordered
  refine ⟨⟨apart (by decide), _, rfl, set (.map 0) (by decide) _ _ _ _ rfl, ?_⟩, ?_, ?_⟩
  · rw [(set (.map 0) (by decide) _ _ _ _ rfl).found _ (apart (by decide)),
      if_pos (by decide +kernel)]
  · obtain ⟨after, inserted, hasInserted⟩ := insert 0 (.collection (.array 1)) (by decide)
    refine ⟨apart (by decide), after, inserted, hasInserted, ?_⟩
    obtain ⟨held, -, found⟩ := hasInserted.found (.collection (.array 1)) (apart (by decide))
    have equal :
        Store.reordered.equal (.collection (.array 1)) (.collection (.array 1)) = true := by
      decide +kernel
    rw [found, equal, Bool.or_true]
  · cases called : Evaluation.callBuiltin ⟨none, ⟨1, 1, 0⟩, ⟨1, 1, 0⟩⟩ "get" .get
        [.collection (.map 0), .str "a"] ⟨Store.reordered, 0⟩ with
    | ok value after => cases called
    | error failure after => exact ⟨failure, by rw [failed _ _ _ _ _ _ _ called]⟩

end Offside
