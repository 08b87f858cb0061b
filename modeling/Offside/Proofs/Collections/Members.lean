import Mathlib.Logic.Relation
import Offside.Proofs.Literals.Literal

namespace Offside

/-!
# What is inside a value

A collection holds its members, and these may be collections again, also the collection
itself.  `Store.Live` says of a value that every collection which it reaches is in the store;
no other references are ever given out.

The display and the key of a value are read along a path of collections on which none occurs
twice.  So the path is never longer than the store, and the room that is left for it is
never used up: `Store.Trail.enter` says that a collection off the path can always be entered.
-/

namespace Store

/-- The members of a collection in their order; in a map each name stands before its value. -/
def members (store : Store) : Reference → List Value
  | .array index => store.items index
  | .map index => (store.entries index).flatMap fun entry => [entry.name, entry.value]
  | .set index => (store.elements index).map (·.element)

/-- The values directly inside a value. -/
def inside (store : Store) : Value → List Value
  | .collection reference => store.members reference
  | _ => []

theorem name_mem_members
    {store : Store} {index : Nat} {entry : MapEntry}
    (member : entry ∈ store.entries index) :
    entry.name ∈ store.members (.map index) :=
  List.mem_flatMap.mpr ⟨entry, member, by simp⟩

theorem value_mem_members
    {store : Store} {index : Nat} {entry : MapEntry}
    (member : entry ∈ store.entries index) :
    entry.value ∈ store.members (.map index) :=
  List.mem_flatMap.mpr ⟨entry, member, by simp⟩

theorem element_mem_members
    {store : Store} {index : Nat} {entry : SetEntry}
    (member : entry ∈ store.elements index) :
    entry.element ∈ store.members (.set index) :=
  List.mem_map_of_mem member

/-- Outside the store there is nothing. -/
theorem mem_references_of_mem_members
    {store : Store} {reference : Reference} {member : Value}
    (isMember : member ∈ store.members reference) :
    reference ∈ store.references := by
  have filled {α : Type} {table : Array (List α)} {index : Nat} {item : α}
      (isItem : item ∈ table[index]?.getD []) : index < table.size := by
    by_contra outside
    rw [Array.getElem?_eq_none (Nat.not_lt.mp outside)] at isItem
    cases isItem
  cases reference with
  | array index => simpa [references] using filled isMember
  | map index =>
    obtain ⟨entry, isEntry, -⟩ := List.mem_flatMap.mp isMember
    simpa [references] using filled isEntry
  | set index =>
    obtain ⟨entry, isEntry, -⟩ := List.mem_map.mp isMember
    simpa [references] using filled isEntry

variable (store : Store)

/-- A value is directly inside another one. -/
def Encloses (outer inner : Value) : Prop :=
  inner ∈ store.inside outer

/-- A value is another one or somewhere inside it. -/
abbrev Reaches : Value → Value → Prop :=
  Relation.ReflTransGen store.Encloses

/-- Every collection that a value reaches is in the store. -/
def Live (value : Value) : Prop :=
  ∀ reference, store.Reaches value (.collection reference) → reference ∈ store.references

/-- The collection that a value refers to, if any, is in the store. -/
def Present : Value → Prop
  | .collection reference => reference ∈ store.references
  | _ => True

instance : DecidablePred store.Present := fun value =>
  match value with
  | .collection reference => inferInstanceAs (Decidable (reference ∈ store.references))
  | .int _ | .float _ _ | .str _ | .char _ | .bool _ | .closure _ | .builtin _ => .isTrue trivial

/-- No value that a value reaches is inside itself. -/
def Acyclic (value : Value) : Prop :=
  ∀ inner, store.Reaches value inner → ¬ Relation.TransGen store.Encloses inner inner

variable {store} {value outer inner : Value}

theorem Live.mono (live : store.Live outer) (reaches : store.Reaches outer inner) :
    store.Live inner :=
  fun reference further => live reference (reaches.trans further)

/-- In a store whose collections hold only what is in the store, every value that is in the
store is live. -/
theorem live_of_present
    (closed : ∀ reference ∈ store.references, ∀ member ∈ store.members reference,
      store.Present member)
    (present : store.Present value) :
    store.Live value := by
  intro reference reaches
  generalize isInner : Value.collection reference = inner at reaches
  have innerPresent : store.Present inner := by
    clear isInner
    induction reaches with
    | refl => exact present
    | @tail outer inner _ encloses hypothesis =>
      cases outer with
      | collection holder => exact closed holder hypothesis inner encloses
      | _ => cases encloses
  rw [← isInner] at innerPresent
  exact innerPresent

theorem Acyclic.mono (acyclic : store.Acyclic outer) (reaches : store.Reaches outer inner) :
    store.Acyclic inner :=
  fun other further => acyclic other (reaches.trans further)

section

variable
    (rank : Value → Nat)
    (descends : ∀ reference ∈ store.references, ∀ member ∈ store.members reference,
      rank member < rank (.collection reference))

include descends

theorem rank_lt_of_encloses (encloses : store.Encloses outer inner) : rank inner < rank outer := by
  cases outer with
  | collection reference =>
    exact descends reference (mem_references_of_mem_members encloses) inner encloses
  | _ => cases encloses

/-- A store in which members always have a smaller rank has no cycles. -/
theorem acyclic_of_rank (value : Value) : store.Acyclic value := by
  intro start _ around
  have below {outer inner : Value} (between : Relation.TransGen store.Encloses outer inner) :
      rank inner < rank outer := by
    induction between with
    | single encloses => exact rank_lt_of_encloses rank descends encloses
    | tail _ encloses hypothesis =>
      exact Nat.lt_trans (rank_lt_of_encloses rank descends encloses) hypothesis
  exact Nat.lt_irrefl _ (below around)

/-- From a value of a smaller rank no value of a greater one is reached. -/
theorem not_reaches_of_rank (below : rank outer < rank inner) : ¬ store.Reaches outer inner := by
  intro reaches
  have bounded : rank inner ≤ rank outer := by
    clear below
    induction reaches with
    | refl => exact Nat.le_refl _
    | tail _ encloses hypothesis =>
      exact Nat.le_trans (Nat.le_of_lt (rank_lt_of_encloses rank descends encloses))
        hypothesis
  exact Nat.not_le_of_lt below bounded

end

/-- The path along which a value is reached, and the room that is left for it. -/
structure Trail (store : Store) (room : Nat) (path : List Reference) : Prop where
  distinct : path.Nodup
  present : ∀ reference ∈ path, reference ∈ store.references
  enough : store.collectionCount ≤ room + path.length

namespace Trail

variable {room : Nat} {path : List Reference} {reference : Reference}

theorem start (store : Store) : store.Trail store.collectionCount [] :=
  ⟨.nil, fun _ member => (List.not_mem_nil member).elim, Nat.le_refl _⟩

/-- There is room for a collection that is not on the path yet. -/
theorem enter
    (trail : store.Trail room path)
    (fresh : reference ∉ path)
    (isPresent : reference ∈ store.references) :
    ∃ less, room = less + 1 ∧ store.Trail less (reference :: path) := by
  have distinct : (reference :: path).Nodup := List.nodup_cons.mpr ⟨fresh, trail.distinct⟩
  have present : ∀ other ∈ reference :: path, other ∈ store.references :=
    List.forall_mem_cons.mpr ⟨isPresent, trail.present⟩
  have bounded : path.length + 1 ≤ store.collectionCount := by
    rw [← store.length_references]
    exact (distinct.subperm present).length_le
  have enough := trail.enough
  refine ⟨room - 1, by omega, distinct, present, ?_⟩
  rw [List.length_cons]
  omega

end Trail

/-- A value is reached along a path of collections that enclose it. -/
structure Leads (store : Store) (room : Nat) (path : List Reference) (value : Value) : Prop where
  trail : store.Trail room path
  above : ∀ reference ∈ path, Relation.TransGen store.Encloses (.collection reference) value

namespace Leads

variable {store : Store} {room : Nat} {path : List Reference} {reference : Reference}

theorem start (store : Store) (value : Value) : store.Leads store.collectionCount [] value :=
  ⟨.start store, List.forall_mem_nil _⟩

/-- A collection without cycles is entered on the way to its members. -/
theorem enter
    (leads : store.Leads room path (.collection reference))
    (acyclic : store.Acyclic (.collection reference))
    (live : store.Live (.collection reference)) :
    reference ∉ path ∧ ∃ less, room = less + 1 ∧
      ∀ member ∈ store.members reference, store.Leads less (reference :: path) member := by
  have fresh : reference ∉ path := fun member => acyclic _ .refl (leads.above reference member)
  obtain ⟨less, isRoom, longer⟩ := leads.trail.enter fresh (live reference .refl)
  refine ⟨fresh, less, isRoom, fun member isMember => ⟨longer, ?_⟩⟩
  exact List.forall_mem_cons.mpr
    ⟨.single isMember, fun other otherMember => (leads.above other otherMember).tail isMember⟩

end Leads

/-- Induction over what is inside a value without cycles. -/
@[elab_as_elim]
theorem Acyclic.induction
    {motive : Value → Prop}
    (acyclic : store.Acyclic value)
    (live : store.Live value)
    (step : ∀ outer, store.Acyclic outer → store.Live outer →
      (∀ inner, store.Encloses outer inner → motive inner) → motive outer) :
    motive value := by
  -- The room that is left for the path bounds how far the value goes down.
  suffices along : ∀ room path outer, store.Leads room path outer → store.Acyclic outer →
      store.Live outer → motive outer from
    along _ [] value (.start store value) acyclic live
  intro room
  induction room using Nat.strongRecOn with
  | ind room hypothesis =>
    intro path outer leads acyclic live
    refine step outer acyclic live fun inner encloses => ?_
    cases outer with
    | collection reference =>
      obtain ⟨-, less, rfl, inside⟩ := leads.enter acyclic live
      exact hypothesis less (Nat.lt_succ_self less) _ inner (inside inner encloses)
        (acyclic.mono (.single encloses)) (live.mono (.single encloses))
    | _ => cases encloses

end Store

end Offside
