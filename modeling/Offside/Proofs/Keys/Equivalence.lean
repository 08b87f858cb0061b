import Mathlib.Data.List.Forall2
import Offside.Proofs.Numbers.Amounts

namespace Offside

/-!
# Sameness of keys is an equivalence

Two keys are the same if they have the same structure, where maps and sets are compared
by mutual inclusion and floats as numbers.  That sameness is reflexive, symmetric and
transitive is what lets a stored key stand for the value that it was taken from.
-/

variable {left right : Key} {α : Type}

/-- The keys that an induction over keys meets at once: those without parts. -/
def Key.isLeaf : Key → Bool
  | .array _ | .map _ | .set _ => false
  | _ => true

/-- Induction over keys, with the hypothesis for every key inside. -/
theorem Key.induction
    {motive : Key → Prop}
    (leaf : ∀ key, key.isLeaf = true → motive key)
    (array : ∀ items, (∀ item ∈ items, motive item) → motive (.array items))
    (map : ∀ entries,
      (∀ key value, KeyEntry.pair key value ∈ entries → motive key ∧ motive value) →
        motive (.map entries))
    (set : ∀ elements, (∀ element ∈ elements, motive element) → motive (.set elements)) :
    ∀ key, motive key
  | .int _ | .float _ _ | .str _ | .char _ | .bool _ | .closure _ | .builtin _ | .again _ =>
    leaf _ rfl
  | .array items => array items fun item _member => Key.induction leaf array map set item
  | .set elements =>
    set elements fun element _member => Key.induction leaf array map set element
  | .map entries =>
    map entries fun key value _member =>
      ⟨Key.induction leaf array map set key, Key.induction leaf array map set value⟩
termination_by key => sizeOf key
decreasing_by
  all_goals
    have smaller := List.sizeOf_lt_of_mem _member
    simp only [KeyEntry.pair.sizeOf_spec, Key.array.sizeOf_spec, Key.set.sizeOf_spec,
      Key.map.sizeOf_spec] at smaller ⊢
    omega

namespace Key

theorem sameAll_iff (lefts rights : List Key) :
    sameAll lefts rights = true ↔
      List.Forall₂ (fun left right => left.same right = true) lefts rights := by
  induction lefts generalizing rights with
  | nil => cases rights <;> simp [sameAll]
  | cons left lefts hypothesis =>
    cases rights <;> simp [sameAll, hypothesis]

theorem within_iff (lefts rights : List Key) :
    within lefts rights = true ↔ ∀ left ∈ lefts, ∃ right ∈ rights, left.same right = true := by
  induction lefts with
  | nil => simp [within]
  | cons left lefts hypothesis => simp [within, hypothesis]

theorem occurs_iff (right : Key) (lefts : List Key) :
    occurs right lefts = true ↔ ∃ left ∈ lefts, left.same right = true := by
  induction lefts with
  | nil => simp [occurs]
  | cons left lefts hypothesis => simp [occurs, hypothesis]

end Key

namespace KeyEntry

theorem within_iff (lefts rights : List KeyEntry) :
    within lefts rights = true ↔ ∀ left ∈ lefts, ∃ right ∈ rights, left.same right = true := by
  induction lefts with
  | nil => simp [within]
  | cons left lefts hypothesis => simp [within, hypothesis]

theorem occurs_iff (right : KeyEntry) (lefts : List KeyEntry) :
    occurs right lefts = true ↔ ∃ left ∈ lefts, left.same right = true := by
  induction lefts with
  | nil => simp [occurs]
  | cons left lefts hypothesis => simp [occurs, hypothesis]

end KeyEntry

/-- Two lists hold the same things if each thing of one has its like in the other. -/
def Covers {α : Type} (same : α → α → Prop) (lefts rights : List α) : Prop :=
  (∀ left ∈ lefts, ∃ right ∈ rights, same left right) ∧
    ∀ right ∈ rights, ∃ left ∈ lefts, same left right

namespace Key

theorem array_same_iff (lefts rights : List Key) :
    (array lefts).same (array rights) = true ↔
      List.Forall₂ (fun left right => left.same right = true) lefts rights :=
  sameAll_iff lefts rights

theorem set_same_iff (lefts rights : List Key) :
    (set lefts).same (set rights) = true ↔
      Covers (fun left right => left.same right = true) lefts rights := by
  show (within lefts rights && rights.all (occurs · lefts)) = true ↔ _
  simp [within_iff, occurs_iff, Covers]

theorem map_same_iff (lefts rights : List KeyEntry) :
    (map lefts).same (map rights) = true ↔
      Covers (fun left right => left.same right = true) lefts rights := by
  show (KeyEntry.within lefts rights && rights.all (KeyEntry.occurs · lefts)) = true ↔ _
  simp [KeyEntry.within_iff, KeyEntry.occurs_iff, Covers]

/-- A key without parts, a float apart, is the same as itself only. -/
theorem eq_of_same_of_leaf
    (bare : left.isLeaf = true)
    (notFloat : ∀ number occurrence, left ≠ .float number occurrence)
    (same : left.same right = true) :
    left = right := by
  cases left with
  | array | map | set => cases bare
  | float number occurrence => exact (notFloat _ _ rfl).elim
  | _ => cases right <;> simp_all [Key.same]

/-- A key without parts and a key that is the same cannot be told apart. -/
theorem same_left_of_leaf
    (bare : left.isLeaf = true)
    (same : left.same right = true)
    (third : Key) :
    right.same third = left.same third := by
  cases left with
  | array | map | set => cases bare
  | float number occurrence =>
    cases right with
    | float number' occurrence' =>
      have sameClass := (sameFloat_iff _ _ _ _).mp same
      cases third with
      | float number'' occurrence'' =>
        show sameFloat .. = sameFloat ..
        rw [Bool.eq_iff_iff, sameFloat_iff, sameFloat_iff, sameClass]
      | _ => rfl
    | _ => cases same
  | int | str | char | bool | closure | builtin | again =>
    rw [eq_of_same_of_leaf bare (fun _ _ => Key.noConfusion) same]

/-- Only an array is the same as an array. -/
theorem array_same_left {lefts : List Key} (same : (array lefts).same right = true) :
    ∃ rights, right = array rights ∧
      List.Forall₂ (fun left right => left.same right = true) lefts rights := by
  cases right with
  | array rights => exact ⟨rights, rfl, (array_same_iff _ _).mp same⟩
  | _ => cases same

/-- Only a set is the same as a set. -/
theorem set_same_left {lefts : List Key} (same : (set lefts).same right = true) :
    ∃ rights, right = set rights ∧
      Covers (fun left right => left.same right = true) lefts rights := by
  cases right with
  | set rights => exact ⟨rights, rfl, (set_same_iff _ _).mp same⟩
  | _ => cases same

/-- Only a map is the same as a map. -/
theorem map_same_left {lefts : List KeyEntry} (same : (map lefts).same right = true) :
    ∃ rights, right = map rights ∧
      Covers (fun left right => left.same right = true) lefts rights := by
  cases right with
  | map rights => exact ⟨rights, rfl, (map_same_iff _ _).mp same⟩
  | _ => cases same

end Key

theorem KeyEntry.same_iff (key value key' value' : Key) :
    (pair key value).same (pair key' value') = true ↔
      key.same key' = true ∧ value.same value' = true :=
  Bool.and_eq_true_iff

namespace Key

/-- A key is the same as itself. -/
theorem same_refl (key : Key) : key.same key = true := by
  induction key using Key.induction with
  | leaf key bare =>
    cases key with
    | array | map | set => cases bare
    | float number occurrence => exact (sameFloat_iff _ _ _ _).mpr rfl
    | _ => simp [Key.same]
  | array items hypothesis =>
    rw [array_same_iff]
    exact List.forall₂_same.mpr hypothesis
  | set elements hypothesis =>
    rw [set_same_iff]
    exact ⟨fun element member => ⟨element, member, hypothesis element member⟩,
      fun element member => ⟨element, member, hypothesis element member⟩⟩
  | map entries hypothesis =>
    have entrySame (entry : KeyEntry) (member : entry ∈ entries) :
        entry.same entry = true := by
      obtain ⟨key, value⟩ := entry
      exact (KeyEntry.same_iff _ _ _ _).mpr (hypothesis key value member)
    rw [map_same_iff]
    exact ⟨fun entry member => ⟨entry, member, entrySame entry member⟩,
      fun entry member => ⟨entry, member, entrySame entry member⟩⟩

end Key

section

variable {same : α → α → Prop} {lefts middles rights : List α}

/-- What holds in both directions between members covers in both directions. -/
theorem Covers.symm
    (covers : Covers same lefts rights)
    (turn : ∀ left ∈ lefts, ∀ right, same left right → same right left) :
    Covers same rights lefts := by
  constructor
  · intro right rightMember
    obtain ⟨left, leftMember, agree⟩ := covers.2 right rightMember
    exact ⟨left, leftMember, turn left leftMember right agree⟩
  · intro left leftMember
    obtain ⟨right, rightMember, agree⟩ := covers.1 left leftMember
    exact ⟨right, rightMember, turn left leftMember right agree⟩

/-- Covering composes where sameness of the members does. -/
theorem Covers.trans
    (first : Covers same lefts middles)
    (second : Covers same middles rights)
    (join : ∀ left ∈ lefts, ∀ middle right,
      same left middle → same middle right → same left right) :
    Covers same lefts rights := by
  constructor
  · intro left leftMember
    obtain ⟨middle, middleMember, agree⟩ := first.1 left leftMember
    obtain ⟨right, rightMember, agree'⟩ := second.1 middle middleMember
    exact ⟨right, rightMember, join left leftMember middle right agree agree'⟩
  · intro right rightMember
    obtain ⟨middle, middleMember, agree'⟩ := second.2 right rightMember
    obtain ⟨left, leftMember, agree⟩ := first.2 middle middleMember
    exact ⟨left, leftMember, join left leftMember middle right agree agree'⟩

/-- Agreement one by one composes where agreement of the members does. -/
theorem pointwise_trans
    (first : List.Forall₂ same lefts middles)
    (second : List.Forall₂ same middles rights)
    (join : ∀ left ∈ lefts, ∀ middle right,
      same left middle → same middle right → same left right) :
    List.Forall₂ same lefts rights := by
  induction first generalizing rights with
  | nil => exact second
  | @cons left middle lefts middles agree _ hypothesis =>
    obtain ⟨right, rights', agree', rest, rfl⟩ := List.forall₂_cons_left_iff.mp second
    refine .cons (join left List.mem_cons_self middle right agree agree') ?_
    exact hypothesis rest fun left member => join left (.tail _ member)

end

namespace Key

/-- Sameness of keys is symmetric. -/
theorem same_symm (same : left.same right = true) : right.same left = true := by
  induction left using Key.induction generalizing right with
  | leaf left bare =>
    rw [same_left_of_leaf bare same]
    exact same_refl left
  | array lefts hypothesis =>
    obtain ⟨rights, rfl, pointwise⟩ := array_same_left same
    rw [array_same_iff]
    refine List.Forall₂.flip (.mp ?_ ((List.forall₂_and_left _ _).mpr
      ⟨hypothesis, pointwise⟩) pointwise)
    exact fun left right turn agree => turn.1 agree
  | set lefts hypothesis =>
    obtain ⟨rights, rfl, covers⟩ := set_same_left same
    rw [set_same_iff]
    exact covers.symm fun left member right agree => hypothesis left member agree
  | map lefts hypothesis =>
    obtain ⟨rights, rfl, covers⟩ := map_same_left same
    rw [map_same_iff]
    refine covers.symm fun left member right agree => ?_
    obtain ⟨key, value⟩ := left
    obtain ⟨key', value'⟩ := right
    obtain ⟨keySame, valueSame⟩ := (KeyEntry.same_iff _ _ _ _).mp agree
    have inside := hypothesis key value member
    exact (KeyEntry.same_iff _ _ _ _).mpr ⟨inside.1 keySame, inside.2 valueSame⟩

/-- Sameness of keys is transitive. -/
theorem same_trans
    {middle : Key}
    (first : left.same middle = true)
    (second : middle.same right = true) :
    left.same right = true := by
  induction left using Key.induction generalizing middle right with
  | leaf left bare => rwa [← same_left_of_leaf bare first]
  | array lefts hypothesis =>
    obtain ⟨middles, rfl, pointwise⟩ := array_same_left first
    obtain ⟨rights, rfl, pointwise'⟩ := array_same_left second
    rw [array_same_iff]
    exact pointwise_trans pointwise pointwise' fun left member middle right agree agree' =>
      hypothesis left member agree agree'
  | set lefts hypothesis =>
    obtain ⟨middles, rfl, covers⟩ := set_same_left first
    obtain ⟨rights, rfl, covers'⟩ := set_same_left second
    rw [set_same_iff]
    exact covers.trans covers' fun left member middle right agree agree' =>
      hypothesis left member agree agree'
  | map lefts hypothesis =>
    obtain ⟨middles, rfl, covers⟩ := map_same_left first
    obtain ⟨rights, rfl, covers'⟩ := map_same_left second
    rw [map_same_iff]
    refine covers.trans covers' fun left member middle right agree agree' => ?_
    obtain ⟨key, value⟩ := left
    obtain ⟨key', value'⟩ := middle
    obtain ⟨key'', value''⟩ := right
    obtain ⟨keySame, valueSame⟩ := (KeyEntry.same_iff _ _ _ _).mp agree
    obtain ⟨keySame', valueSame'⟩ := (KeyEntry.same_iff _ _ _ _).mp agree'
    have inside := hypothesis key value member
    exact (KeyEntry.same_iff _ _ _ _).mpr
      ⟨inside.1 keySame keySame', inside.2 valueSame valueSame'⟩

end Key

end Offside
