import Offside.Store.Display
import Offside.Store.Identity

namespace Offside

/-!
# Walks along a path

A walk adds each collection that it enters to the collections that it is inside of, which all
of its parts share, and takes it out again when it is done with it.  So every part of a walk
leaves these as it found them, and what it is inside of is the path to it.  Display and key of
a value can therefore be read off along a path, without anything that is shared.
-/

namespace Store

/-- The display of a value reached along a path. -/
def displayAlong (store : Store) :
    (room : Nat) → (path : List Reference) → (nested : Bool) → Value → Text
  | room + 1, path, _, .collection reference =>
      if reference ∈ path then reference.elided
      else
        let inner := reference :: path
        match reference with
        | .array index =>
            bracketed '[' ']' ((store.items index).map (store.displayAlong room inner true))
        | .map index =>
            bracketed '\x7b' '\x7d' ((store.entries index).map fun entry =>
              store.displayAlong room inner true entry.name ++ ": " ++
                store.displayAlong room inner true entry.value)
        | .set index =>
            bracketed '\x7b' '\x7d' ((store.elements index).map fun entry =>
              store.displayAlong room inner true entry.element)
  | _, _, nested, value => store.scalarText nested value

/-- The key of a value reached along a path. -/
def keyAlong (store : Store) : (room : Nat) → (path : List Reference) → Value → Key
  | room + 1, path, .collection reference =>
      if reference ∈ path then .again reference
      else
        let inner := reference :: path
        match reference with
        | .array index => .array ((store.items index).map (store.keyAlong room inner))
        | .map index =>
            .map ((store.entries index).map fun entry =>
              .pair entry.key (store.keyAlong room inner entry.value))
        | .set index => .set ((store.elements index).map (·.key))
  | _, _, value => scalarKey value

namespace Walk

variable {α β : Type}

/-- A walk is in the end inside of the collections that it started in, and its result depends
on these only. -/
def Restores (walk : Walk α) (result : List Reference → α) : Prop :=
  ∀ path, walk.run path = (result path, path)

theorem Restores.result_eq
    {walk : Walk α} {result : List Reference → α}
    (restores : walk.Restores result) :
    walk.result = result [] := by
  rw [Walk.result, restores]
  rfl

theorem restores_pure (value : α) : Restores (pure value) fun _ => value :=
  fun _ => rfl

theorem Restores.bind
    {walk : Walk α} {next : α → Walk β} {result : List Reference → α}
    {nextResult : α → List Reference → β}
    (first : walk.Restores result)
    (second : ∀ value, (next value).Restores (nextResult value)) :
    Restores (walk >>= next) fun path => nextResult (result path) path := by
  intro path
  rw [StateT.run_bind, first path]
  exact second (result path) path

/-- Walks one after the other all start in the same collections. -/
theorem restores_mapM
    {walk : α → Walk β} {result : List Reference → α → β}
    (each : ∀ item, (walk item).Restores fun path => result path item)
    (items : List α) :
    Restores (items.mapM walk) fun path => items.map (result path) := by
  induction items with
  | nil => exact restores_pure []
  | cons item items hypothesis =>
    rw [List.mapM_cons]
    exact (each item).bind fun first => hypothesis.bind fun rest => restores_pure (first :: rest)

/-- A collection that was entered is left again. -/
theorem Restores.enter
    {inside : Walk α} {result : List Reference → α}
    (restores : inside.Restores result)
    (reference : Reference)
    (again : α) :
    Restores (Walk.enter reference again inside) fun path =>
      if reference ∈ path then again else result (reference :: path) := by
  intro path
  show (if reference ∈ path then (pure again : Walk α) else _).run path =
    (if reference ∈ path then again else result (reference :: path), path)
  by_cases onPath : reference ∈ path
  · rw [if_pos onPath, if_pos onPath]
    rfl
  · rw [if_neg onPath, if_neg onPath]
    show (let (value, inner) := inside.run (reference :: path); (value, inner.erase reference)) = _
    rw [restores]
    simp only [List.erase_cons_head]

end Walk

/-- A walk displays a value as along the path that it is on. -/
theorem displayWalk_restores (store : Store) (room : Nat) (nested : Bool) (value : Value) :
    (store.displayWalk room nested value).Restores
      fun path => store.displayAlong room path nested value := by
  induction room generalizing nested value with
  | zero =>
    simp only [displayWalk, displayAlong]
    exact Walk.restores_pure _
  | succ room hypothesis =>
    cases value with
    | collection reference =>
      have part (value : Value) := hypothesis true value
      simp only [displayWalk, displayAlong]
      cases reference with
      | array index =>
        exact ((Walk.restores_mapM part _).bind fun _ => Walk.restores_pure _).enter _ _
      | map index =>
        have each (entry : MapEntry) := (part entry.name).bind fun name =>
          (part entry.value).bind fun value => Walk.restores_pure (name ++ ": " ++ value)
        exact ((Walk.restores_mapM each _).bind fun _ => Walk.restores_pure _).enter _ _
      | set index =>
        have each (entry : SetEntry) := part entry.element
        exact ((Walk.restores_mapM each _).bind fun _ => Walk.restores_pure _).enter _ _
    | _ =>
      simp only [displayWalk, displayAlong]
      exact Walk.restores_pure _

/-- A walk finds the key of a value as along the path that it is on. -/
theorem keyWalk_restores (store : Store) (room : Nat) (value : Value) :
    (store.keyWalk room value).Restores fun path => store.keyAlong room path value := by
  induction room generalizing value with
  | zero =>
    simp only [keyWalk, keyAlong]
    exact Walk.restores_pure _
  | succ room hypothesis =>
    cases value with
    | collection reference =>
      simp only [keyWalk, keyAlong]
      cases reference with
      | array index =>
        exact ((Walk.restores_mapM hypothesis _).bind fun _ => Walk.restores_pure _).enter _ _
      | map index =>
        have each (entry : MapEntry) := (hypothesis entry.value).bind fun key =>
          Walk.restores_pure (KeyEntry.pair entry.key key)
        exact ((Walk.restores_mapM each _).bind fun _ => Walk.restores_pure _).enter _ _
      | set index => exact (Walk.restores_pure _).enter _ _
    | _ =>
      simp only [keyWalk, keyAlong]
      exact Walk.restores_pure _

theorem display_eq_displayAlong (store : Store) (value : Value) :
    store.display value = store.displayAlong store.collectionCount [] false value :=
  (store.displayWalk_restores _ _ value).result_eq

theorem displayNested_eq_displayAlong (store : Store) (value : Value) :
    store.displayNested value = store.displayAlong store.collectionCount [] true value :=
  (store.displayWalk_restores _ _ value).result_eq

theorem key_eq_keyAlong (store : Store) (value : Value) :
    store.key value = store.keyAlong store.collectionCount [] value :=
  (store.keyWalk_restores _ value).result_eq

section

variable {store : Store} {value : Value} {room : Nat} {path : List Reference} {nested : Bool}
  (bare : ∀ reference, value ≠ .collection reference)

include bare

theorem displayAlong_of_not_collection :
    store.displayAlong room path nested value = store.scalarText nested value := by
  cases value with
  | collection reference => exact (bare reference rfl).elim
  | _ => simp only [displayAlong]

theorem keyAlong_of_not_collection :
    store.keyAlong room path value = scalarKey value := by
  cases value with
  | collection reference => exact (bare reference rfl).elim
  | _ => simp only [keyAlong]

/-- The key of a value that is no collection is the same in every store. -/
theorem key_of_not_collection : store.key value = scalarKey value :=
  (store.key_eq_keyAlong value).trans (keyAlong_of_not_collection bare)

end

end Store

end Offside
