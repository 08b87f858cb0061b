import Mathlib.Data.List.Forall2
import Offside.Proofs.Keys.Structure

namespace Offside

/-!
# Which keys are one in plain data

Plain data know fewer kinds than values do, so keys that a map or a set tells apart may be one
key there.  The class of a key says which: numbers and truth values are told apart by what they
are worth, texts and characters by their text, arrays of such scalars item by item, and maps
and sets by their structure, which plain data keep in full (`Key.plain_same_iff`).  Keys are one
exactly if they are of one class (`Plain.HasClass.same_iff`).
-/

namespace Plain

theorem sameAll_iff (lefts rights : List Plain) :
    sameAll lefts rights = true ↔
      List.Forall₂ (fun left right => left.same right = true) lefts rights := by
  induction lefts generalizing rights with
  | nil => cases rights <;> simp [sameAll]
  | cons left lefts hypothesis =>
    cases rights <;> simp [sameAll, hypothesis]

theorem within_iff (lefts rights : List Plain) :
    within lefts rights = true ↔ ∀ left ∈ lefts, ∃ right ∈ rights, left.same right = true := by
  induction lefts with
  | nil => simp [within]
  | cons left lefts hypothesis => simp [within, hypothesis]

theorem occurs_iff (right : Plain) (lefts : List Plain) :
    occurs right lefts = true ↔ ∃ left ∈ lefts, left.same right = true := by
  induction lefts with
  | nil => simp [occurs]
  | cons left lefts hypothesis => simp [occurs, hypothesis]

theorem tuple_same_iff (lefts rights : List Plain) :
    (tuple lefts).same (tuple rights) = true ↔
      List.Forall₂ (fun left right => left.same right = true) lefts rights := by
  rw [same, sameAll_iff]

theorem fixedGroup_same_iff (lefts rights : List Plain) :
    (fixedGroup lefts).same (fixedGroup rights) = true ↔
      Covers (fun left right => left.same right = true) lefts rights := by
  simp [same, within_iff, occurs_iff, Covers]

end Plain

theorem Key.plainAll_eq_map (keys : List Key) : Key.plainAll keys = keys.map Key.plain := by
  induction keys with
  | nil => rfl
  | cons key keys hypothesis => rw [plainAll, hypothesis, List.map_cons]

theorem KeyEntry.plainAll_eq_map (entries : List KeyEntry) :
    KeyEntry.plainAll entries = entries.map KeyEntry.plain := by
  induction entries with
  | nil => rfl
  | cons entry entries hypothesis => rw [plainAll, hypothesis, List.map_cons]

/-- Covering depends only on how the members agree. -/
theorem Covers.congr
    {α : Type} {first second : α → α → Prop} {lefts rights : List α}
    (agree : ∀ left ∈ lefts, ∀ right, first left right ↔ second left right) :
    Covers first lefts rights ↔ Covers second lefts rights := by
  refine and_congr (forall₂_congr fun left member => ?_) (forall₂_congr fun right _ => ?_)
  · exact exists_congr fun right => and_congr_right' (agree left member right)
  · exact exists_congr fun left => and_congr_right fun member => agree left member right

/-- The structure of a value as plain data tells no less and no more than the structure. -/
theorem Key.plain_same_iff (left right : Key) :
    left.plain.same right.plain = true ↔ left.same right = true := by
  induction left using Key.induction generalizing right with
  | leaf left bare =>
    cases left with
    | array | map | set => cases bare
    | float number occurrence =>
      cases right with
      | float other otherOccurrence =>
        have numbers : Plain.sameNumber (.float number occurrence) (.float other otherOccurrence) =
            true ↔ sameFloat number occurrence other otherOccurrence = true := by
          rw [Plain.sameNumber_iff rfl rfl, sameFloat_iff]
          exact Option.some_inj
        simpa [Key.plain, Plain.same, Plain.sameAll, Key.same, Plain.number?] using numbers
      | _ => simp [Key.plain, Plain.same, Plain.sameAll, Key.same]
    | bool value =>
      cases right with
      | bool other =>
        cases value <;> cases other <;>
          simp [Key.plain, Plain.same, Plain.sameAll, Key.same, Plain.number?, Plain.sameNumber,
            Value.order?]
      | _ => simp [Key.plain, Plain.same, Plain.sameAll, Key.same]
    | int value =>
      cases right with
      | int other =>
        simp [Key.plain, Plain.same, Plain.sameAll, Key.same, Plain.number?, Plain.sameNumber,
          Value.order?]
      | _ => simp [Key.plain, Plain.same, Plain.sameAll, Key.same]
    | again reference =>
      cases right with
      | again other =>
        simp +contextual [Key.plain, Plain.same, Plain.sameAll, Key.same]
      | _ => simp [Key.plain, Plain.same, Plain.sameAll, Key.same, Plain.number?]
    | _ => cases right <;> simp [Key.plain, Plain.same, Plain.sameAll, Key.same]
  | array items hypothesis =>
    cases right with
    | array others =>
      have unfolded : (array items).plain.same (array others).plain = true ↔
          (Plain.tuple (items.map Key.plain)).same (.tuple (others.map Key.plain)) = true := by
        simp [Key.plain, Plain.same, Plain.sameAll, plainAll_eq_map]
      rw [unfolded, Plain.tuple_same_iff, List.forall₂_map_left_iff, List.forall₂_map_right_iff,
        Key.array_same_iff]
      constructor
      · exact fun pointwise => pointwise_imp pointwise fun left member right _ =>
          (hypothesis left member right).mp
      · exact fun pointwise => pointwise_imp pointwise fun left member right _ =>
          (hypothesis left member right).mpr
    | _ => simp [Key.plain, Plain.same, Plain.sameAll, Key.same, Plain.number?]
  | set elements hypothesis =>
    cases right with
    | set others =>
      have unfolded : (set elements).plain.same (set others).plain = true ↔
          (Plain.fixedGroup (elements.map Key.plain)).same (.fixedGroup (others.map Key.plain)) =
            true := by
        simp [Key.plain, Plain.same, Plain.sameAll, plainAll_eq_map]
      rw [unfolded, Plain.fixedGroup_same_iff, covers_map_iff, Key.set_same_iff]
      exact Covers.congr hypothesis
    | _ => simp [Key.plain, Plain.same, Plain.sameAll, Key.same, Plain.number?]
  | map entries hypothesis =>
    cases right with
    | map others =>
      have unfolded : (map entries).plain.same (map others).plain = true ↔
          (Plain.fixedGroup (entries.map KeyEntry.plain)).same
            (.fixedGroup (others.map KeyEntry.plain)) = true := by
        simp [Key.plain, Plain.same, Plain.sameAll, KeyEntry.plainAll_eq_map]
      rw [unfolded, Plain.fixedGroup_same_iff, covers_map_iff, Key.map_same_iff]
      refine Covers.congr fun left member right => ?_
      obtain ⟨key, value⟩ := left
      obtain ⟨otherKey, otherValue⟩ := right
      obtain ⟨keys, values⟩ := hypothesis key value member
      rw [KeyEntry.same_iff, ← keys, ← values]
      simp [KeyEntry.plain, Plain.same, Plain.sameAll]
    | _ => simp [Key.plain, Plain.same, Plain.sameAll, Key.same, Plain.number?]

/-- Keys that are the same as one thing. -/
def Key.setoid : Setoid Key where
  r left right := left.same right = true
  iseqv := ⟨same_refl, same_symm, same_trans⟩

/-- What plain data tell of a scalar: what a number is worth, or a text. -/
inductive Scalar where
  | number (amount : Amount)
  | text (value : Text)

/-- What plain data tell of a scalar value. -/
def Value.scalar? : Value → Option Scalar
  | .str value => some (.text value)
  | .char value => some (.text [value])
  | value => value.amount?.map .number

/-- What scalar plain data tell. -/
def Plain.scalar? : Plain → Option Scalar
  | .text value => some (.text value)
  | plain => (plain.number?.bind Value.amount?).map .number

/-- What tells keys apart in plain data. -/
inductive KeyClass where
  | scalar (scalar : Scalar)
  | array (items : List Scalar)
  | structured (key : Quotient Key.setoid)

/-- The class of a value as a key of plain data: numbers and truth values by what they are worth,
texts and characters by their text, arrays of these item by item, maps and sets by their
structure.  Functions and arrays of anything else have none. -/
def Store.keyClass? (store : Store) : Value → Option KeyClass
  | .collection (.array index) => ((store.items index).mapM Value.scalar?).map .array
  | .collection reference =>
    some (.structured (Quotient.mk Key.setoid (store.key (.collection reference))))
  | value => value.scalar?.map .scalar

namespace Plain

/-- Plain data that are a key of a class. -/
inductive HasClass : Plain → KeyClass → Prop where
  | scalar
      {plain : Plain} {scalar : Scalar} :
      plain.scalar? = some scalar →
      HasClass plain (.scalar scalar)
  | array
      {items : List Plain} {scalars : List Scalar} :
      List.Forall₂ (fun item scalar => item.scalar? = some scalar) items scalars →
      HasClass (.tuple items) (.array scalars)
  | structured
      {plain : Plain} {key : Key} :
      plain = key.plain →
      key.kind = .map ∨ key.kind = .set →
      HasClass plain (.structured (Quotient.mk Key.setoid key))

section

variable {left right plain : Plain} {first second scalar : Scalar} {items : List Plain}
  {scalars others : List Scalar}

/-- Scalar plain data are a text or a number. -/
theorem scalar?_cases (isScalar : plain.scalar? = some scalar) :
    (∃ text, plain = .text text ∧ scalar = .text text) ∨
      ∃ number amount, plain.number? = some number ∧ number.kind.isNumeric = true ∧
        number.amount? = some amount ∧ scalar = .number amount := by
  cases plain with
  | text text => exact .inl ⟨text, rfl, (Option.some.inj isScalar).symm⟩
  | int | float | bool => exact .inr ⟨_, _, rfl, rfl, rfl, (Option.some.inj isScalar).symm⟩
  | _ => cases isScalar

theorem same_of_number
    {number other : Value}
    (isNumber : left.number? = some number)
    (isOther : right.number? = some other) :
    left.same right = sameNumber number other := by
  cases left <;> cases isNumber <;> cases right <;> cases isOther <;> rfl

theorem same_text_of_number
    {number : Value}
    (isNumber : plain.number? = some number)
    (text : Text) :
    plain.same (.text text) = false ∧ (Plain.text text).same plain = false := by
  cases plain <;> cases isNumber <;> exact ⟨rfl, rfl⟩

/-- Scalar plain data are one key if they tell the same. -/
theorem same_iff_of_scalar
    (isFirst : left.scalar? = some first)
    (isSecond : right.scalar? = some second) :
    left.same right = true ↔ first = second := by
  rcases scalar?_cases isFirst with
    ⟨text, rfl, rfl⟩ | ⟨number, amount, isNumber, numeric, isAmount, rfl⟩ <;>
  rcases scalar?_cases isSecond with
    ⟨other, rfl, rfl⟩ | ⟨other, otherAmount, isOther, otherNumeric, isOtherAmount, rfl⟩
  · simp [same]
  · simp [(same_text_of_number isOther text).2]
  · simp [(same_text_of_number isNumber other).1]
  · rw [same_of_number isNumber isOther, sameNumber_iff numeric otherNumeric, isAmount,
      isOtherAmount]
    simp

theorem same_tuple_of_scalar (isScalar : plain.scalar? = some scalar) (items : List Plain) :
    plain.same (.tuple items) = false ∧ (tuple items).same plain = false := by
  cases plain <;> first | exact ⟨rfl, rfl⟩ | cases isScalar

/-- Tuples of scalars are one key if they tell the same item by item. -/
theorem tuple_same_iff_of_scalars
    {otherItems : List Plain}
    (areScalars : List.Forall₂ (fun item scalar => item.scalar? = some scalar) items scalars)
    (areOthers : List.Forall₂ (fun item scalar => item.scalar? = some scalar) otherItems others) :
    (tuple items).same (tuple otherItems) = true ↔ scalars = others := by
  rw [tuple_same_iff]
  induction areScalars generalizing otherItems others with
  | nil => cases areOthers <;> simp
  | cons isScalar _ hypothesis =>
    cases areOthers with
    | nil => simp
    | cons isOther rest => simp [same_iff_of_scalar isScalar isOther, hypothesis rest]

/-- The structure of a map or a set as plain data is a tuple with its kind in front. -/
theorem exists_plain_eq
    {key : Key}
    (isMapOrSet : key.kind = .map ∨ key.kind = .set) :
    ∃ kind rest, key.plain = .tuple (.kind kind :: rest) ∧ firstUnfixed? rest = none := by
  cases key with
  | map | set | again => exact ⟨_, _, rfl, rfl⟩
  | _ => simp [Key.kind] at isMapOrSet

/-- A tuple of scalars is not the structure of a map or a set. -/
theorem same_structure_of_scalars
    (areScalars : List.Forall₂ (fun item scalar => item.scalar? = some scalar) items scalars)
    (kind : Kind)
    (rest : List Plain) :
    (tuple items).same (tuple (.kind kind :: rest)) = false ∧
      (tuple (.kind kind :: rest)).same (tuple items) = false := by
  cases areScalars with
  | nil => exact ⟨rfl, rfl⟩
  | @cons item scalar _ _ isScalar _ =>
    have different : item.same (.kind kind) = false ∧ (Plain.kind kind).same item = false := by
      cases item <;> first | exact ⟨rfl, rfl⟩ | cases isScalar
    constructor
    · rw [same, sameAll, different.1, Bool.false_and]
    · rw [same, sameAll, different.2, Bool.false_and]

end

namespace HasClass

variable {left right plain : Plain} {first second keyClass : KeyClass}

/-- Keys of plain data are one if they are of one class. -/
theorem same_iff (isFirst : left.HasClass first) (isSecond : right.HasClass second) :
    left.same right = true ↔ first = second := by
  cases isFirst with
  | scalar isScalar =>
    cases isSecond with
    | scalar isOther => simp [same_iff_of_scalar isScalar isOther]
    | array => simp [same_tuple_of_scalar isScalar]
    | structured isPlain isMapOrSet =>
      obtain ⟨kind, rest, shape, -⟩ := exists_plain_eq isMapOrSet
      simp [isPlain, shape, same_tuple_of_scalar isScalar]
  | array areScalars =>
    cases isSecond with
    | scalar isOther => simp [same_tuple_of_scalar isOther]
    | array areOthers => simp [tuple_same_iff_of_scalars areScalars areOthers]
    | structured isPlain isMapOrSet =>
      obtain ⟨kind, rest, shape, -⟩ := exists_plain_eq isMapOrSet
      simp [isPlain, shape, same_structure_of_scalars areScalars]
  | structured isPlain isMapOrSet =>
    obtain ⟨kind, rest, shape, -⟩ := exists_plain_eq isMapOrSet
    cases isSecond with
    | scalar isOther => simp [isPlain, shape, same_tuple_of_scalar isOther]
    | array areOthers => simp [isPlain, shape, same_structure_of_scalars areOthers]
    | structured isOtherPlain =>
      rw [isPlain, isOtherPlain, Key.plain_same_iff, KeyClass.structured.injEq, Quotient.eq]
      rfl

/-- What has a class can be a key. -/
theorem checked_eq (hasClass : plain.HasClass keyClass) : plain.checked = .ok plain := by
  have fixed : plain.unfixed? = none := by
    cases hasClass with
    | scalar isScalar => cases plain <;> first | rfl | cases isScalar
    | array areScalars =>
      rw [unfixed?]
      induction areScalars with
      | nil => rfl
      | @cons item _ _ _ isScalar _ hypothesis =>
        rw [firstUnfixed?, hypothesis]
        cases item <;> first | rfl | cases isScalar
    | structured isPlain isMapOrSet =>
      obtain ⟨kind, rest, shape, noneUnfixed⟩ := exists_plain_eq isMapOrSet
      rw [isPlain, shape, unfixed?, firstUnfixed?, noneUnfixed]
      rfl
  rw [checked, fixed]

end HasClass

end Plain

namespace Store

variable {store : Store} {value : Value} {keyClass : KeyClass} {index : Nat}

theorem mapM_scalar?_eq_some_iff {items : List Value} {scalars : List Scalar} :
    items.mapM Value.scalar? = some scalars ↔
      List.Forall₂ (fun item scalar => item.scalar? = some scalar) items scalars := by
  induction items generalizing scalars with
  | nil => cases scalars <;> simp [eq_comm]
  | cons item items hypothesis =>
    rw [List.mapM_cons]
    cases scalars with
    | nil => simp [Option.bind_eq_some_iff]
    | cons scalar scalars => simp [Option.bind_eq_some_iff, hypothesis]

end Store

end Offside
