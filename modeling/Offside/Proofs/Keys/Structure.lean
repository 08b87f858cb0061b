import Offside.Proofs.Collections.Members
import Offside.Proofs.Keys.Snapshot

namespace Offside

/-!
# Equality is structural

Values are compared by their keys, which mix what is inside a collection now with keys that
were stored when a name or an element was entered.  `Store.SameStructure` says without keys
what it means for two values to have the same structure.  For values without cycles whose
stored keys are current, they are equal exactly if they have the same structure.

Without cycles the key of a value does not depend on the path along which it is reached, so
it is made of the keys of its members (`Store.key_array`, `Store.key_map`).
-/

variable {α : Type} {index : Nat}

/-- Lists whose members agree one by one, also in another sense that they agree in. -/
theorem pointwise_imp
    {β : Type} {first second : α → β → Prop} {lefts : List α} {rights : List β}
    (pointwise : List.Forall₂ first lefts rights)
    (implies : ∀ left ∈ lefts, ∀ right ∈ rights, first left right → second left right) :
    List.Forall₂ second lefts rights := by
  induction pointwise with
  | nil => exact .nil
  | cons agree _ hypothesis =>
    refine .cons (implies _ List.mem_cons_self _ List.mem_cons_self agree) ?_
    exact hypothesis fun left leftMember right rightMember =>
      implies left (.tail _ leftMember) right (.tail _ rightMember)

variable {same : α → α → Prop} {lefts rights : List α}

/-- Two lists hold the same things if the members of one agree with those of the other in some
order. -/
theorem Covers.of_matched
    {matched : List α}
    (reordered : matched.Perm rights)
    (pointwise : List.Forall₂ same lefts matched) :
    Covers same lefts rights := by
  suffices covers : Covers same lefts matched from
    ⟨fun left member =>
      have ⟨right, rightMember, agree⟩ := covers.1 left member
      ⟨right, reordered.subset rightMember, agree⟩,
    fun right member => covers.2 right (reordered.symm.subset member)⟩
  clear reordered
  induction pointwise with
  | nil => exact ⟨nofun, nofun⟩
  | @cons first second _ _ agree _ hypothesis =>
    constructor
    · rintro left (_ | ⟨_, member⟩)
      · exact ⟨second, List.mem_cons_self, agree⟩
      · obtain ⟨right, rightMember, agree'⟩ := hypothesis.1 left member
        exact ⟨right, .tail _ rightMember, agree'⟩
    · rintro right (_ | ⟨_, member⟩)
      · exact ⟨first, List.mem_cons_self, agree⟩
      · obtain ⟨left, leftMember, agree'⟩ := hypothesis.2 right member
        exact ⟨left, .tail _ leftMember, agree'⟩

/-- If no two members of one list agree with the same thing, then lists that hold the same
things agree one by one after reordering. -/
theorem Covers.exists_matched
    (covers : Covers same lefts rights)
    (leftsApart : lefts.Pairwise fun first second =>
      ∀ right, same first right → ¬ same second right)
    (rightsApart : rights.Pairwise fun first second =>
      ∀ left, same left first → ¬ same left second) :
    ∃ matched, matched.Perm rights ∧ List.Forall₂ same lefts matched := by
  induction lefts generalizing rights with
  | nil =>
    have empty : rights = [] := by
      refine List.eq_nil_iff_forall_not_mem.mpr fun right member => ?_
      obtain ⟨_, leftMember, _⟩ := covers.2 right member
      cases leftMember
    exact ⟨[], empty ▸ .nil, .nil⟩
  | cons left lefts hypothesis =>
    obtain ⟨right, rightMember, agree⟩ := covers.1 left List.mem_cons_self
    obtain ⟨front, back, rfl⟩ := List.append_of_mem rightMember
    have moved : (front ++ right :: back).Perm (right :: (front ++ back)) := List.perm_middle
    obtain ⟨leftApart, leftsApart⟩ := List.pairwise_cons.mp leftsApart
    have movedApart := (moved.pairwise_iff fun apart left agree agree' =>
      apart left agree' agree).mp rightsApart
    obtain ⟨rightApart, restApart⟩ := List.pairwise_cons.mp movedApart
    have rest : Covers same lefts (front ++ back) := by
      constructor
      · intro other otherMember
        obtain ⟨partner, partnerMember, agree'⟩ := covers.1 other (.tail _ otherMember)
        rcases List.mem_cons.mp (moved.subset partnerMember) with rfl | inRest
        · exact (leftApart other otherMember _ agree agree').elim
        · exact ⟨partner, inRest, agree'⟩
      · intro other otherMember
        obtain ⟨partner, partnerMember, agree'⟩ :=
          covers.2 other (moved.symm.subset (.tail _ otherMember))
        rcases List.mem_cons.mp partnerMember with rfl | inRest
        · exact (rightApart other otherMember _ agree agree').elim
        · exact ⟨partner, inRest, agree'⟩
    obtain ⟨matched, reordered, pointwise⟩ := hypothesis rest leftsApart restApart
    exact ⟨right :: matched, (reordered.cons right).trans moved.symm, .cons agree pointwise⟩

theorem covers_map_iff {β : Type} {same : β → β → Prop} (view : α → β) (lefts rights : List α) :
    Covers same (lefts.map view) (rights.map view) ↔
      Covers (fun left right => same (view left) (view right)) lefts rights := by
  simp [Covers]

namespace Store

/-- Two values have the same structure: they are of one kind, and scalars have the same data,
arrays the same elements in the same order, maps the same names with the same values and sets
the same elements, both in any order, and functions are one and the same. -/
inductive SameStructure (store : Store) : Value → Value → Prop where
  | int (value : Int) :
      SameStructure store (.int value) (.int value)
  | float
      {left right : Float} {leftOccurrence rightOccurrence : Nat} :
      sameFloat left leftOccurrence right rightOccurrence = true →
      SameStructure store (.float left leftOccurrence) (.float right rightOccurrence)
  | str (value : Text) :
      SameStructure store (.str value) (.str value)
  | char (value : CodePoint) :
      SameStructure store (.char value) (.char value)
  | bool (value : Bool) :
      SameStructure store (.bool value) (.bool value)
  | closure (index : Nat) :
      SameStructure store (.closure index) (.closure index)
  | builtin (function : Builtin) :
      SameStructure store (.builtin function) (.builtin function)
  | array
      {left right : Nat} :
      List.Forall₂ (SameStructure store) (store.items left) (store.items right) →
      SameStructure store (.collection (.array left)) (.collection (.array right))
  | map
      {left right : Nat} {matched : List MapEntry} :
      matched.Perm (store.entries right) →
      List.Forall₂ (fun first second => SameStructure store first.name second.name)
        (store.entries left) matched →
      List.Forall₂ (fun first second => SameStructure store first.value second.value)
        (store.entries left) matched →
      SameStructure store (.collection (.map left)) (.collection (.map right))
  | set
      {left right : Nat} {matched : List SetEntry} :
      matched.Perm (store.elements right) →
      List.Forall₂ (fun first second => SameStructure store first.element second.element)
        (store.elements left) matched →
      SameStructure store (.collection (.set left)) (.collection (.set right))

/-- Stored keys are those that the values have now, and no two of them are the same. -/
structure UpToDate (store : Store) (stored : List (Key × Value)) : Prop where
  current : ∀ pair ∈ stored, store.Current pair
  distinct : stored.Pairwise fun first second => first.1.same second.1 = false

/-- A value without cycles whose collections are in the store, with keys that are up to date in
each of its maps and sets. -/
structure Settled (store : Store) (value : Value) : Prop where
  acyclic : store.Acyclic value
  live : store.Live value
  maps : ∀ index, store.Reaches value (.collection (.map index)) →
    store.UpToDate ((store.entries index).map (·.stored))
  sets : ∀ index, store.Reaches value (.collection (.set index)) →
    store.UpToDate ((store.elements index).map (·.stored))

namespace Settled

variable {store : Store} {outer inner : Value}

theorem mono (settled : store.Settled outer) (reaches : store.Reaches outer inner) :
    store.Settled inner where
  acyclic := settled.acyclic.mono reaches
  live := settled.live.mono reaches
  maps index further := settled.maps index (reaches.trans further)
  sets index further := settled.sets index (reaches.trans further)

theorem item
    (settled : store.Settled (.collection (.array index)))
    (member : inner ∈ store.items index) :
    store.Settled inner :=
  settled.mono (.single member)

theorem name
    {entry : MapEntry}
    (settled : store.Settled (.collection (.map index)))
    (member : entry ∈ store.entries index) :
    store.Settled entry.name :=
  settled.mono (.single (name_mem_members member))

theorem value
    {entry : MapEntry}
    (settled : store.Settled (.collection (.map index)))
    (member : entry ∈ store.entries index) :
    store.Settled entry.value :=
  settled.mono (.single (value_mem_members member))

theorem element
    {index : Nat} {element : SetEntry}
    (settled : store.Settled (.collection (.set index)))
    (member : element ∈ store.elements index) :
    store.Settled element.element :=
  settled.mono (.single (element_mem_members member))

end Settled

/-! ## Keys without cycles -/

section

variable {store : Store} {value : Value} {room otherRoom : Nat} {path otherPath : List Reference}

/-- The key of a value without cycles is the same along all paths that lead to it. -/
theorem keyAlong_eq_of_acyclic
    (acyclic : store.Acyclic value)
    (live : store.Live value)
    (leads : store.Leads room path value)
    (otherLeads : store.Leads otherRoom otherPath value) :
    store.keyAlong room path value = store.keyAlong otherRoom otherPath value := by
  suffices along : ∀ room otherRoom path otherPath, store.Leads room path value →
      store.Leads otherRoom otherPath value →
      store.keyAlong room path value = store.keyAlong otherRoom otherPath value from
    along _ _ _ _ leads otherLeads
  refine acyclic.induction live ?_
  intro outer acyclic live hypothesis room otherRoom path otherPath leads otherLeads
  cases outer with
  | collection reference =>
    obtain ⟨fresh, less, rfl, inside⟩ := leads.enter acyclic live
    obtain ⟨otherFresh, otherLess, rfl, otherInside⟩ := otherLeads.enter acyclic live
    have below (member : Value) (isMember : member ∈ store.members reference) :
        store.keyAlong less (reference :: path) member =
          store.keyAlong otherLess (reference :: otherPath) member :=
      hypothesis member isMember _ _ _ _ (inside member isMember)
        (otherInside member isMember)
    rw [keyAlong, if_neg fresh, keyAlong, if_neg otherFresh]
    cases reference with
    | array index => exact congrArg Key.array (List.map_congr_left below)
    | map index =>
      refine congrArg Key.map (List.map_congr_left fun entry member => ?_)
      rw [below entry.value (value_mem_members member)]
    | set index => rfl
  | int | float | str | char | bool | closure | builtin =>
    rw [keyAlong_of_not_collection fun _ => Value.noConfusion,
      keyAlong_of_not_collection fun _ => Value.noConfusion]

/-- The key of a collection without cycles is made in the same way as along a path, of the
keys of its members. -/
theorem exists_key_eq
    {reference : Reference}
    (acyclic : store.Acyclic (.collection reference))
    (live : store.Live (.collection reference)) :
    ∃ less, store.key (.collection reference) =
        store.keyAlong (less + 1) [] (.collection reference) ∧
      ∀ member ∈ store.members reference,
        store.keyAlong less [reference] member = store.key member := by
  obtain ⟨-, less, isCount, inside⟩ := (Leads.start store _).enter acyclic live
  refine ⟨less, by rw [key_eq_keyAlong, isCount], fun member isMember => ?_⟩
  have reaches : store.Reaches (.collection reference) member := .single isMember
  rw [key_eq_keyAlong]
  exact keyAlong_eq_of_acyclic (acyclic.mono reaches) (live.mono reaches) (inside member isMember)
    (.start store member)

theorem key_array
    (acyclic : store.Acyclic (.collection (.array index)))
    (live : store.Live (.collection (.array index))) :
    store.key (.collection (.array index)) = .array ((store.items index).map store.key) := by
  obtain ⟨less, isKey, below⟩ := exists_key_eq acyclic live
  rw [isKey, keyAlong, if_neg List.not_mem_nil]
  exact congrArg Key.array (List.map_congr_left below)

theorem key_map
    (acyclic : store.Acyclic (.collection (.map index)))
    (live : store.Live (.collection (.map index))) :
    store.key (.collection (.map index)) =
      .map ((store.entries index).map fun entry => .pair entry.key (store.key entry.value)) := by
  obtain ⟨less, isKey, below⟩ := exists_key_eq acyclic live
  rw [isKey, keyAlong, if_neg List.not_mem_nil]
  refine congrArg Key.map (List.map_congr_left fun entry member => ?_)
  rw [below entry.value (value_mem_members member)]

theorem key_set
    (acyclic : store.Acyclic (.collection (.set index)))
    (live : store.Live (.collection (.set index))) :
    store.key (.collection (.set index)) = .set ((store.elements index).map (·.key)) := by
  obtain ⟨less, isKey, -⟩ := exists_key_eq acyclic live
  rw [isKey, keyAlong, if_neg List.not_mem_nil]

end

/-! ## Same keys and same structure -/

end Store

/-- The kind of the values that have a key. -/
def Key.kind : Key → Kind
  | .int _ => .int
  | .float _ _ => .float
  | .str _ => .str
  | .char _ => .char
  | .bool _ => .bool
  | .closure _ => .closure
  | .builtin _ => .builtin
  | .array _ => .array
  | .map _ => .map
  | .set _ => .set
  | .again reference => reference.kind

theorem Key.kind_eq_of_same {left right : Key} (same : left.same right = true) :
    left.kind = right.kind := by
  cases left with
  | again reference =>
    rw [Key.eq_of_same_of_leaf rfl (fun _ _ => Key.noConfusion) same]
  | _ => cases right <;> first | rfl | cases same

namespace Store

section

variable {store : Store} {left right : Value}

theorem kind_key (store : Store) (value : Value) : (store.key value).kind = value.kind := by
  cases value with
  | collection reference =>
    rw [key_eq_keyAlong]
    cases store.collectionCount with
    | zero => rfl
    | succ room =>
      rw [keyAlong, if_neg List.not_mem_nil]
      cases reference <;> rfl
  | int | float | str | char | bool | closure | builtin =>
    rw [key_of_not_collection fun _ => Value.noConfusion]
    rfl

theorem kind_eq_of_same_key (same : (store.key left).same (store.key right) = true) :
    left.kind = right.kind := by
  rw [← kind_key store left, ← kind_key store right]
  exact Key.kind_eq_of_same same

theorem equal_iff_same_key :
    store.equal left right = true ↔ (store.key left).same (store.key right) = true := by
  refine ⟨same_key_of_equal, fun same => ?_⟩
  unfold equal
  split
  · exact Bool.or_eq_true_iff.mpr (.inr same)
  · exact same

/-- A scalar or a function has the key of another value if the two have the same structure. -/
theorem same_key_iff_of_not_collection (bare : ∀ reference, left ≠ .collection reference) :
    (store.key left).same (store.key right) = true ↔ store.SameStructure left right := by
  constructor
  · intro same
    have kinds := kind_eq_of_same_key same
    have bareToo : ∀ reference, right ≠ .collection reference := by
      rintro reference rfl
      cases left with
      | collection other => exact bare other rfl
      | _ => cases reference <;> cases kinds
    rw [key_of_not_collection bare, key_of_not_collection bareToo] at same
    -- Of all pairs of values, those of one kind are left.
    cases left <;> cases right <;>
      first
        | exact Kind.noConfusion kinds
        | exact (bare _ rfl).elim
        | exact (bareToo _ rfl).elim
        | simp only [scalarKey, Key.same, beq_iff_eq] at same
    case float.float => exact .float same
    all_goals
      subst same
      constructor
  · intro structured
    cases structured with
    | array => exact (bare _ rfl).elim
    | map => exact (bare _ rfl).elim
    | set => exact (bare _ rfl).elim
    | float same =>
      rw [key_of_not_collection bare, key_of_not_collection fun _ => Value.noConfusion]
      simpa only [scalarKey, Key.same] using same
    | _ => exact Key.same_refl _

/-- What an induction assumes of a value: it has the key of another settled value if the two
have the same structure. -/
def KeyTellsStructure (store : Store) (value : Value) : Prop :=
  ∀ other, store.Settled other →
    ((store.key value).same (store.key other) = true ↔ store.SameStructure value other)

theorem SameStructure.kind_eq (structured : store.SameStructure left right) :
    left.kind = right.kind := by
  cases structured <;> rfl

/-- It is enough to compare a collection with those of its kind. -/
theorem tells_structure_of_kind
    {reference : Reference}
    (tells : ∀ other, reference.kind = other.kind → store.Settled (.collection other) →
      ((store.key (.collection reference)).same (store.key (.collection other)) = true ↔
        store.SameStructure (.collection reference) (.collection other))) :
    store.KeyTellsStructure (.collection reference) := by
  intro other otherSettled
  by_cases kinds : (Value.collection reference).kind = other.kind
  · cases other with
    | collection other => exact tells other kinds otherSettled
    | _ => cases reference <;> cases kinds
  · exact iff_of_false (fun same => kinds (kind_eq_of_same_key same))
      fun structured => kinds structured.kind_eq

theorem array_tells_structure
    (settled : store.Settled (.collection (.array index)))
    (below : ∀ item ∈ store.items index, store.KeyTellsStructure item) :
    store.KeyTellsStructure (.collection (.array index)) := by
  refine tells_structure_of_kind fun other kinds isOther => ?_
  cases other with
  | map | set => cases kinds
  | array otherIndex =>
    rw [key_array settled.acyclic settled.live, key_array isOther.acyclic isOther.live,
      Key.array_same_iff, List.forall₂_map_left_iff, List.forall₂_map_right_iff]
    constructor
    · intro pointwise
      refine .array (pointwise_imp pointwise fun left leftMember right rightMember => ?_)
      exact (below left leftMember right (isOther.item rightMember)).mp
    · intro structured
      cases structured with
      | array pointwise =>
        refine pointwise_imp pointwise fun left leftMember right rightMember => ?_
        exact (below left leftMember right (isOther.item rightMember)).mpr

/-- Stored keys that are up to date are the same if the values are. -/
theorem Current.same_iff
    {first second : Key × Value}
    (current : store.Current first)
    (otherCurrent : store.Current second) :
    first.1.same second.1 = true ↔ (store.key first.2).same (store.key second.2) = true := by
  constructor
  · intro same
    exact Key.same_trans (Key.same_symm current) (Key.same_trans same otherCurrent)
  · intro same
    exact Key.same_trans current (Key.same_trans same (Key.same_symm otherCurrent))

/-- Where the keys in entries tell their structure, entries that are up to date cover each
other exactly if they have the same structure in some order. -/
theorem UpToDate.covers_iff_matched
    {stored : α → Key × Value} {structured : α → α → Prop}
    (upToDate : store.UpToDate (lefts.map stored))
    (otherUpToDate : store.UpToDate (rights.map stored))
    (sameKeys : ∀ left right, same left right → (stored left).1.same (stored right).1 = true)
    (tells : ∀ left ∈ lefts, ∀ right ∈ rights, same left right ↔ structured left right) :
    Covers same lefts rights ↔
      ∃ matched : List α, matched.Perm rights ∧ List.Forall₂ structured lefts matched := by
  constructor
  · intro covers
    have leftsDistinct := upToDate.distinct
    have rightsDistinct := otherUpToDate.distinct
    rw [List.pairwise_map] at leftsDistinct rightsDistinct
    have leftsApart := leftsDistinct.imp fun {first second} different right
        (agree : same first right) (agree' : same second right) =>
      Bool.false_ne_true (different.symm.trans
        (Key.same_trans (sameKeys _ _ agree) (Key.same_symm (sameKeys _ _ agree'))))
    have rightsApart := rightsDistinct.imp fun {first second} different left
        (agree : same left first) (agree' : same left second) =>
      Bool.false_ne_true (different.symm.trans
        (Key.same_trans (Key.same_symm (sameKeys _ _ agree)) (sameKeys _ _ agree')))
    obtain ⟨matched, reordered, pointwise⟩ := covers.exists_matched leftsApart rightsApart
    refine ⟨matched, reordered, pointwise_imp pointwise fun left isLeft right isRight => ?_⟩
    exact (tells left isLeft right (reordered.subset isRight)).mp
  · rintro ⟨matched, reordered, pointwise⟩
    refine .of_matched reordered (pointwise_imp pointwise fun left isLeft right isRight => ?_)
    exact (tells left isLeft right (reordered.subset isRight)).mpr

theorem set_tells_structure
    (settled : store.Settled (.collection (.set index)))
    (below : ∀ entry ∈ store.elements index, store.KeyTellsStructure entry.element) :
    store.KeyTellsStructure (.collection (.set index)) := by
  refine tells_structure_of_kind fun other kinds isOther => ?_
  cases other with
  | array | map => cases kinds
  | set otherIndex =>
    have upToDate := settled.sets index .refl
    have otherUpToDate := isOther.sets otherIndex .refl
    have tells (first : SetEntry) (isFirst : first ∈ store.elements index) (second : SetEntry)
        (isSecond : second ∈ store.elements otherIndex) :
        first.key.same second.key = true ↔ store.SameStructure first.element second.element := by
      rw [← below first isFirst _ (isOther.element isSecond)]
      exact (upToDate.current _ (List.mem_map_of_mem isFirst)).same_iff
        (otherUpToDate.current _ (List.mem_map_of_mem isSecond))
    rw [key_set settled.acyclic settled.live, key_set isOther.acyclic isOther.live,
      Key.set_same_iff, covers_map_iff]
    refine (upToDate.covers_iff_matched otherUpToDate (fun _ _ => id) tells).trans ⟨?_, ?_⟩
    · rintro ⟨matched, reordered, pointwise⟩
      exact .set reordered pointwise
    · intro structured
      cases structured with
      | set reordered pointwise => exact ⟨_, reordered, pointwise⟩

theorem map_tells_structure
    (settled : store.Settled (.collection (.map index)))
    (names : ∀ entry ∈ store.entries index, store.KeyTellsStructure entry.name)
    (values : ∀ entry ∈ store.entries index, store.KeyTellsStructure entry.value) :
    store.KeyTellsStructure (.collection (.map index)) := by
  refine tells_structure_of_kind fun other kinds isOther => ?_
  cases other with
  | array | set => cases kinds
  | map otherIndex =>
    have upToDate := settled.maps index .refl
    have otherUpToDate := isOther.maps otherIndex .refl
    rw [key_map settled.acyclic settled.live, key_map isOther.acyclic isOther.live,
      Key.map_same_iff, covers_map_iff]
    have tells (first : MapEntry) (isFirst : first ∈ store.entries index) (second : MapEntry)
        (isSecond : second ∈ store.entries otherIndex) :
        KeyEntry.same (.pair first.key (store.key first.value))
            (.pair second.key (store.key second.value)) = true ↔
          store.SameStructure first.name second.name ∧
            store.SameStructure first.value second.value := by
      rw [KeyEntry.same_iff, ← names first isFirst _ (isOther.name isSecond),
        ← values first isFirst _ (isOther.value isSecond)]
      refine and_congr_left fun _ => ?_
      exact (upToDate.current _ (List.mem_map_of_mem isFirst)).same_iff
        (otherUpToDate.current _ (List.mem_map_of_mem isSecond))
    refine (upToDate.covers_iff_matched otherUpToDate
      (fun _ _ same => ((KeyEntry.same_iff _ _ _ _).mp same).1) tells).trans ⟨?_, ?_⟩
    · rintro ⟨matched, reordered, pointwise⟩
      exact .map reordered (pointwise.imp fun _ _ both => both.1)
        (pointwise.imp fun _ _ both => both.2)
    · intro structured
      cases structured with
      | map reordered sameNames sameValues =>
        exact ⟨_, reordered, .mp (fun _ _ => And.intro) sameNames sameValues⟩

/-- The key of a settled value tells its structure. -/
theorem Settled.key_tells_structure {value : Value} (settled : store.Settled value) :
    store.KeyTellsStructure value := by
  suffices all : store.Settled value → store.KeyTellsStructure value from all settled
  refine settled.acyclic.induction settled.live ?_
  intro outer _ _ hypothesis settled
  cases outer with
  | collection reference =>
    have below (member : Value) (isMember : member ∈ store.members reference) :
        store.KeyTellsStructure member :=
      hypothesis member isMember (settled.mono (.single isMember))
    cases reference with
    | array index => exact array_tells_structure settled below
    | map index =>
      exact map_tells_structure settled
        (fun entry member => below entry.name (name_mem_members member))
        fun entry member => below entry.value (value_mem_members member)
    | set index =>
      exact set_tells_structure settled fun entry member =>
        below entry.element (element_mem_members member)
  | int | float | str | char | bool | closure | builtin =>
    exact fun _ _ => same_key_iff_of_not_collection fun _ => Value.noConfusion

end

end Store

/-- Equality is structural: two values without cycles whose maps and sets store every entry
under the key that it has now are equal exactly if they have the same structure. -/
theorem equality_is_structural
    {store : Store}
    {left right : Value}
    (leftSettled : store.Settled left)
    (rightSettled : store.Settled right) :
    store.equal left right = true ↔ store.SameStructure left right :=
  Store.equal_iff_same_key.trans (leftSettled.key_tells_structure right rightSettled)

/-- Two maps with the same entries in different orders, each with an array of its own that is
both a name and a value in it and an element of the set in it. -/
def Store.reordered : Store :=
  let pair := .array [.int 1, .str "a"]
  let both := .set [pair, .bool true]
  ⟨#[], #[[.int 1, .str "a"], [.int 1, .str "a"]],
    #[[⟨pair, .collection (.array 0), .collection (.set 0)⟩,
        ⟨.int 2, .int 2, .collection (.array 0)⟩, ⟨both, .collection (.set 0), .closure 0⟩],
      [⟨both, .collection (.set 1), .closure 0⟩, ⟨.int 2, .int 2, .collection (.array 1)⟩,
        ⟨pair, .collection (.array 1), .collection (.set 1)⟩]],
    #[[⟨pair, .collection (.array 0)⟩, ⟨.bool true, .bool true⟩],
      [⟨.bool true, .bool true⟩, ⟨pair, .collection (.array 1)⟩]], #[], 0⟩

/-- In these maps sets stand below maps and arrays below both. -/
def Store.reorderedRank (value : Value) : Nat :=
  match value.kind with
  | .array => 1
  | .set => 2
  | .map => 3
  | _ => 0

/-- The two maps have the same structure, since they are equal. -/
theorem equality_is_structural_reordered :
    Store.reordered.Settled (.collection (.map 0)) ∧
      Store.reordered.Settled (.collection (.map 1)) ∧
      Store.reordered.equal (.collection (.map 0)) (.collection (.map 1)) = true ∧
      Store.reordered.SameStructure (.collection (.map 0)) (.collection (.map 1)) := by
  have settled (value : Value) (present : Store.reordered.Present value) :
      Store.reordered.Settled value := by
    refine ⟨Store.acyclic_of_rank Store.reorderedRank (by decide) value,
      Store.live_of_present (by decide) present, fun index _ => ?_, fun index _ => ?_⟩
    · rcases index with _ | _ | index
      · exact ⟨by decide, by decide⟩
      · exact ⟨by decide, by decide⟩
      · exact ⟨List.forall_mem_nil _, .nil⟩
    · rcases index with _ | _ | index
      · exact ⟨by decide, by decide⟩
      · exact ⟨by decide, by decide⟩
      · exact ⟨List.forall_mem_nil _, .nil⟩
  have first := settled (.collection (.map 0)) (by decide)
  have second := settled (.collection (.map 1)) (by decide)
  have equal : Store.reordered.equal (.collection (.map 0)) (.collection (.map 1)) = true := by
    decide +kernel
  exact ⟨first, second, equal, (equality_is_structural first second).mp equal⟩

end Offside
