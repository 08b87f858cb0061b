import Offside.Proofs.Values.WellFormed

namespace Offside

/-!
# What values refer to

A collection is made by a literal or by joining two arrays, and from then on values refer to
it by its place.  A literal of a set or of a map that is read from a source has elements, and
collections grow.  So each map and each set that a value refers to is in the store and is not
empty.  This lasts, and so it holds of all values of a session at every moment.
-/

/-- The collection that a value refers to is in the store, and if it is a map or a set it is
not empty. -/
def Value.Solid (store : Store) : Value → Prop
  | .collection (.array index) => ∃ items, store.arrays[index]? = some items
  | .collection (.map index) => ∃ entries, store.maps[index]? = some entries ∧ entries ≠ []
  | .collection (.set index) => ∃ elements, store.sets[index]? = some elements ∧ elements ≠ []
  | _ => True

/-- Keys that are kept are keys of a list that is not empty. -/
theorem Store.KeepsKeys.ne_nil
    {α : Type} {key : α → Key} {old new : List α}
    (kept : KeepsKeys key old new)
    (nonempty : old ≠ []) :
    new ≠ [] := by
  rintro rfl
  exact nonempty (List.map_eq_nil_iff.mp (List.prefix_nil.mp kept))

/-- What a value refers to stays, and grows. -/
theorem Value.Solid.grows
    {before after : Store} {value : Value}
    (solid : value.Solid before)
    (grows : before.Grows after) :
    value.Solid after := by
  cases value with
  | collection reference =>
    cases reference with
    | array index =>
      obtain ⟨items, found⟩ := solid
      obtain ⟨later, foundLater, _⟩ := grows.arrays index items found
      exact ⟨later, foundLater⟩
    | map index =>
      obtain ⟨entries, found, nonempty⟩ := solid
      obtain ⟨later, foundLater, kept⟩ := grows.maps index entries found
      exact ⟨later, foundLater, kept.ne_nil nonempty⟩
    | set index =>
      obtain ⟨elements, found, nonempty⟩ := solid
      obtain ⟨later, foundLater, kept⟩ := grows.sets index elements found
      exact ⟨later, foundLater, kept.ne_nil nonempty⟩
  | _ => exact trivial

/-- Solid values are made from solid ones, whatever else there is in the store. -/
theorem solid_lasting : Lasting Value.Solid where
  grows solid grows := solid.grows grows
  plain _ value isPlain := by
    cases value with
    | collection => cases isPlain
    | _ => exact trivial
  array _ _ := ⟨_, Array.getElem?_push_size⟩
  integer _ _ _ _ _ _ := trivial

namespace Evaluation

variable {limit : Nat}

/-- The elements of a literal that has any are not none. -/
theorem Evaluates.members_ne_nil
    {site : Site} {known gathered : List SetEntry} {roots : List Expr} {machine after : Machine}
    (derivation : Evaluates limit site (.members known roots) machine (.ok gathered after))
    (some : known ≠ [] ∨ roots ≠ []) :
    gathered ≠ [] := by
  induction roots generalizing known machine with
  | nil =>
    cases derivation
    exact some.resolve_right fun nonempty => nonempty rfl
  | cons first rest hypothesis =>
    cases derivation with
    | members _ later =>
      refine hypothesis later (.inl ?_)
      unfold Store.adjoin
      split
      · rename_i present
        rintro rfl
        cases present
      · simp

/-- The entries of a literal that has any are not none. -/
theorem Evaluates.entries_ne_nil
    {site : Site} {known gathered : List MapEntry} {roots : List Entry} {machine after : Machine}
    (derivation : Evaluates limit site (.entries known roots) machine (.ok gathered after))
    (some : known ≠ [] ∨ roots ≠ []) :
    gathered ≠ [] := by
  induction roots generalizing known machine with
  | nil =>
    cases derivation
    exact some.resolve_right fun nonempty => nonempty rfl
  | cons first rest hypothesis =>
    cases derivation with
    | entries _ _ _ later => exact hypothesis later (.inl (by simp))

/-- Regular syntax makes no empty set and no empty map. -/
theorem Call.Carries.makes {call : Call} (carries : call.Carries Node.Regular) :
    call.Makes Value.Solid limit := by
  unfold Call.Makes
  split
  · trivial
  · intro gathered after evaluated
    exact ⟨gathered, Array.getElem?_push_size, evaluated.members_ne_nil (.inr carries.task.1)⟩
  · intro gathered after evaluated
    exact ⟨gathered, Array.getElem?_push_size, evaluated.entries_ne_nil (.inr carries.task.1)⟩
  · exact fun _ _ => trivial
  · trivial

end Evaluation

/-- Collections only grow.  From the machine that any moves reach in a fresh session, further
moves lead on one effect after the other, whether they succeed or fail.  From any store on the
way to any later one, each array stays in its place and becomes no shorter, and each map and
each set stays in its place with all its keys in their order, further keys coming behind them.
And if the moves execute what is read from sources, then in every store on the way, in every
evaluation that takes place and in the result of every move, each value refers only to
collections that there are, and the maps and sets among them are not empty. -/
theorem collections_only_grow (earlier later : List Session.Move) :
    let reached := Session.play earlier Session.start
    Session.Passes reached later reached.store (Session.play later reached).store ∧
      (∀ before after, Session.Passes reached later before after → before.Grows after) ∧
      ((∀ move ∈ earlier ++ later, move.FromSource) →
        (∀ store, Session.Passes reached later reached.store store →
          store.Upholds Value.Solid) ∧
        (∀ limit call, Session.Occurs reached later limit call → call.Upholds Value.Solid) ∧
        ∀ (move : Session.Move) (value : Value), move.FromSource →
          (move.perform reached).1 = .ok (some value) →
          value.Solid (move.perform reached).2.store) := by
  intro reached
  refine ⟨Session.play_passes later reached, fun _ _ passes => passes.grows, fun fromSource => ?_⟩
  obtain ⟨first, further⟩ := List.forall_mem_append.mp fun move member =>
    (fromSource move member).regular
  have carries : reached.store.Carries Node.Regular :=
    Session.play_carries Node.regular_inherited first Session.start_carries
  have makes {machine : Machine} {moves : List Session.Move}
      (reads : ∀ move ∈ moves, move.Carries Node.Regular)
      (store : machine.store.Carries Node.Regular) (limit : Nat) (call : Evaluation.Call)
      (occurs : Session.Occurs machine moves limit call) : call.Makes Value.Solid limit :=
    (occurs.carries Node.regular_inherited reads store).makes
  have solid : reached.store.Upholds Value.Solid :=
    Session.play_upholds solid_lasting (makes first Session.start_carries)
      (Session.start_upholds solid_lasting)
  refine ⟨fun store passes => passes.upholds solid_lasting (makes further carries) solid,
    fun limit call occurs => occurs.upholds solid_lasting (makes further carries) solid,
    fun move value isSource => ?_⟩
  have reads := List.forall_mem_singleton.mpr isSource.regular
  exact (move.upholds solid_lasting (makes reads carries) solid).2 value

/-- A move that makes an array, a map that shares it, and a set. -/
def Session.sharedCollections : List Session.Move :=
  [.step ⟨.default, "let a = [1]\nlet m = {k: a}\nlet s = {1}", false⟩]

/-- A move that lets an array grow inside an argument of `set` and then fails. -/
def Session.growthBeforeFailure : List Session.Move :=
  [.step ⟨.default, "set m \"k\" (push a (len (push (get m \"k\") 2)))\ninsert s a\nmissing",
    false⟩]

/-- After a move that fails, the array is longer, the map has the keys that it had and the set
one more. -/
theorem collections_only_grow_before_failure :
    let reached := Session.play Session.sharedCollections Session.start
    let last := Session.play Session.growthBeforeFailure reached
    (reached.store.items 0).length = 1 ∧ (last.store.items 0).length = 3 ∧
      (reached.store.entries 0).length = 1 ∧ (last.store.entries 0).length = 1 ∧
      (reached.store.elements 0).length = 1 ∧ (last.store.elements 0).length = 2 ∧
      reached.store.Grows last.store ∧ last.store.Upholds Value.Solid := by
  intro reached last
  have sizes : (reached.store.items 0).length = 1 ∧ (last.store.items 0).length = 3 ∧
      (reached.store.entries 0).length = 1 ∧ (last.store.entries 0).length = 1 ∧
      (reached.store.elements 0).length = 1 ∧ (last.store.elements 0).length = 2 := by
    decide +kernel
  have fromSource : ∀ move ∈ Session.sharedCollections ++ Session.growthBeforeFailure,
      move.FromSource := by
    intro move member
    rcases List.mem_append.mp member with first | second
    · cases List.mem_singleton.mp first
      exact trivial
    · cases List.mem_singleton.mp second
      exact trivial
  obtain ⟨passes, grows, solid⟩ :=
    collections_only_grow Session.sharedCollections Session.growthBeforeFailure
  obtain ⟨array, arrayLater, map, mapLater, set, setLater⟩ := sizes
  exact ⟨array, arrayLater, map, mapLater, set, setLater, grows _ _ passes,
    (solid fromSource).1 _ passes⟩

end Offside
