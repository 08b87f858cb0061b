import Mathlib.Data.List.Forall2
import Mathlib.Data.List.Nodup
import Mathlib.Data.List.Perm.Subperm
import Offside.Proofs.Keys.Equivalence
import Offside.Proofs.Values.Walks
import Offside.Token.Scan

namespace Offside

/-!
# Literals

A literal is a value that can be written down: integers, texts, characters, truth values,
and arrays, maps and sets of literals.  It has a text and a key of its own, apart from any
store.  A value of a store denotes a literal if following its collections gives that tree;
then its display is the text of the literal, and its key is the key of the literal.
-/

variable {α β : Type} {room : Nat} {path : List Reference} {store : Store}

/-- A value as it can be written down. -/
inductive Literal where
  | int (number : Int)
  | str (content : Text)
  | char (code : CodePoint)
  | bool (truth : Bool)
  | array (items : List Literal)
  | map (entries : List (Literal × Literal))
  | set (elements : List Literal)

namespace Literal

theorem sizeOf_fst_lt
    {entries : List (Literal × Literal)} {entry : Literal × Literal}
    (member : entry ∈ entries) :
    sizeOf entry.1 < sizeOf (map entries) := by
  have smaller := List.sizeOf_lt_of_mem member
  obtain ⟨name, value⟩ := entry
  simp only [Prod.mk.sizeOf_spec, map.sizeOf_spec] at smaller ⊢
  omega

theorem sizeOf_snd_lt
    {entries : List (Literal × Literal)} {entry : Literal × Literal}
    (member : entry ∈ entries) :
    sizeOf entry.2 < sizeOf (map entries) := by
  have smaller := List.sizeOf_lt_of_mem member
  obtain ⟨name, value⟩ := entry
  simp only [Prod.mk.sizeOf_spec, map.sizeOf_spec] at smaller ⊢
  omega

theorem sizeOf_item_lt {items : List Literal} {item : Literal} (member : item ∈ items) :
    sizeOf item < sizeOf (array items) := by
  have smaller := List.sizeOf_lt_of_mem member
  simp only [array.sizeOf_spec]
  omega

theorem sizeOf_element_lt
    {elements : List Literal} {element : Literal}
    (member : element ∈ elements) :
    sizeOf element < sizeOf (set elements) := by
  have smaller := List.sizeOf_lt_of_mem member
  simp only [set.sizeOf_spec]
  omega

/-- How a literal is written. -/
def text : Literal → Text
  | .int number => Text.ofInt number
  | .str content => Text.quoted (.scalar '"') content
  | .char code => Text.quoted (.scalar '\'') [code]
  | .bool truth => if truth then "true" else "false"
  | .array items => Store.bracketed '[' ']' (items.map fun item => item.text)
  | .map entries =>
    Store.bracketed '\x7b' '\x7d'
      (entries.map fun entry => entry.1.text ++ ": " ++ entry.2.text)
  | .set elements =>
    Store.bracketed '\x7b' '\x7d' (elements.map fun element => element.text)
termination_by literal => sizeOf literal
decreasing_by
  · exact sizeOf_item_lt ‹_›
  · exact sizeOf_fst_lt ‹_›
  · exact sizeOf_snd_lt ‹_›
  · exact sizeOf_element_lt ‹_›

/-- The structure of a literal. -/
def key : Literal → Key
  | .int number => .int number
  | .str content => .str content
  | .char code => .char code
  | .bool truth => .bool truth
  | .array items => .array (items.map fun item => item.key)
  | .map entries => .map (entries.map fun entry => .pair entry.1.key entry.2.key)
  | .set elements => .set (elements.map fun element => element.key)
termination_by literal => sizeOf literal
decreasing_by
  · exact sizeOf_item_lt ‹_›
  · exact sizeOf_fst_lt ‹_›
  · exact sizeOf_snd_lt ‹_›
  · exact sizeOf_element_lt ‹_›

/-- A literal that a source can hold, with at most so many levels of phrases inside its
brackets: its integers fit, and its maps and sets are not empty and have no two names or
elements with the same key. -/
inductive Proper : (levels : Nat) → Literal → Prop where
  | int
      {levels : Nat} {number : Int} :
      Scan.leastInteger ≤ number → number ≤ Scan.greatestInteger → Proper levels (.int number)
  | str
      {levels : Nat} {content : Text} :
      Proper levels (.str content)
  | char
      {levels : Nat} {code : CodePoint} :
      Proper levels (.char code)
  | bool
      {levels : Nat} {truth : Bool} :
      Proper levels (.bool truth)
  | emptyArray
      {levels : Nat} :
      Proper levels (.array [])
  | array
      {levels : Nat} {items : List Literal} :
      (∀ item ∈ items, Proper levels item) →
      Proper (levels + 6) (.array items)
  | map
      {levels : Nat} {entries : List (Literal × Literal)} :
      entries ≠ [] →
      (∀ entry ∈ entries, Proper levels entry.1) →
      (∀ entry ∈ entries, Proper levels entry.2) →
      entries.Pairwise (fun first second => first.1.key.same second.1.key = false) →
      Proper (levels + 6) (.map entries)
  | set
      {levels : Nat} {elements : List Literal} :
      elements ≠ [] →
      (∀ element ∈ elements, Proper levels element) →
      elements.Pairwise (fun first second => first.key.same second.key = false) →
      Proper (levels + 6) (.set elements)

end Literal

/-- Following the collections of a value gives a literal; names and elements are stored
under the keys of what they denote. -/
inductive Denotes (store : Store) : Value → Literal → Prop where
  | int
      {number : Int} :
      Denotes store (.int number) (.int number)
  | str
      {content : Text} :
      Denotes store (.str content) (.str content)
  | char
      {code : CodePoint} :
      Denotes store (.char code) (.char code)
  | bool
      {truth : Bool} :
      Denotes store (.bool truth) (.bool truth)
  | array
      {index : Nat} {items : List Value} {literals : List Literal} :
      store.arrays[index]? = some items →
      items.length = literals.length →
      (∀ pair ∈ items.zip literals, Denotes store pair.1 pair.2) →
      Denotes store (.collection (.array index)) (.array literals)
  | map
      {index : Nat} {entries : List MapEntry} {literals : List (Literal × Literal)} :
      store.maps[index]? = some entries →
      entries.length = literals.length →
      (∀ pair ∈ entries.zip literals, Denotes store pair.1.name pair.2.1) →
      (∀ pair ∈ entries.zip literals, Denotes store pair.1.value pair.2.2) →
      (∀ pair ∈ entries.zip literals, pair.1.key.same pair.2.1.key = true) →
      Denotes store (.collection (.map index)) (.map literals)
  | set
      {index : Nat} {elements : List SetEntry} {literals : List Literal} :
      store.sets[index]? = some elements →
      elements.length = literals.length →
      (∀ pair ∈ elements.zip literals, Denotes store pair.1.element pair.2) →
      (∀ pair ∈ elements.zip literals, pair.1.key.same pair.2.key = true) →
      Denotes store (.collection (.set index)) (.set literals)

theorem map_eq_of_zip
    {γ : Type} {lefts : List α} {rights : List β} {onLeft : α → γ} {onRight : β → γ}
    (sizes : lefts.length = rights.length)
    (agree : ∀ pair ∈ lefts.zip rights, onLeft pair.1 = onRight pair.2) :
    lefts.map onLeft = rights.map onRight := by
  rw [← List.forall₂_eq_eq_eq, List.forall₂_map_left_iff, List.forall₂_map_right_iff,
    List.forall₂_iff_zip]
  exact ⟨sizes, fun member => agree _ member⟩

theorem eq_of_zip
    {parts : List α} {lefts rights : List β}
    (leftSizes : parts.length = lefts.length)
    (rightSizes : parts.length = rights.length)
    (agree : ∀ part left right,
      (part, left) ∈ parts.zip lefts → (part, right) ∈ parts.zip rights → left = right) :
    lefts = rights := by
  induction parts generalizing lefts rights with
  | nil =>
    rw [List.eq_nil_of_length_eq_zero leftSizes.symm,
      List.eq_nil_of_length_eq_zero rightSizes.symm]
  | cons part parts hypothesis =>
    obtain ⟨left, lefts, rfl⟩ := List.exists_cons_of_length_eq_add_one leftSizes.symm
    obtain ⟨right, rights, rfl⟩ := List.exists_cons_of_length_eq_add_one rightSizes.symm
    have sameHead : left = right :=
      agree part left right (List.mem_cons_self ..) (List.mem_cons_self ..)
    have sameTail : lefts = rights :=
      hypothesis (Nat.succ.inj leftSizes) (Nat.succ.inj rightSizes)
        fun inner left' right' leftMember rightMember =>
          agree inner left' right' (List.mem_cons_of_mem _ leftMember)
            (List.mem_cons_of_mem _ rightMember)
    rw [sameHead, sameTail]

namespace Denotes

variable {value : Value} {literal : Literal}

/-- A value denotes one literal. -/
theorem unique
    (denotes : Denotes store value literal)
    {other : Literal}
    (otherDenotes : Denotes store value other) :
    literal = other := by
  induction denotes generalizing other with
  | int | str | char | bool => cases otherDenotes; rfl
  | array found sizes _ hypothesis =>
    cases otherDenotes with
    | array found' sizes' parts' =>
      cases found.symm.trans found'
      refine congrArg Literal.array (eq_of_zip sizes sizes' ?_)
      intro item left right leftMember rightMember
      exact hypothesis _ leftMember (parts' _ rightMember)
  | map found sizes _ _ _ nameHypothesis valueHypothesis =>
    cases otherDenotes with
    | map found' sizes' names' values' _ =>
      cases found.symm.trans found'
      refine congrArg Literal.map (eq_of_zip sizes sizes' ?_)
      intro entry left right leftMember rightMember
      exact Prod.ext (nameHypothesis _ leftMember (names' _ rightMember))
        (valueHypothesis _ leftMember (values' _ rightMember))
  | set found sizes _ _ hypothesis =>
    cases otherDenotes with
    | set found' sizes' parts' _ =>
      cases found.symm.trans found'
      refine congrArg Literal.set (eq_of_zip sizes sizes' ?_)
      intro element left right leftMember rightMember
      exact hypothesis _ leftMember (parts' _ rightMember)

end Denotes

namespace Store

/-- Every collection of a store. -/
def references (store : Store) : List Reference :=
  (List.range store.arrays.size).map .array ++
    ((List.range store.maps.size).map .map ++ (List.range store.sets.size).map .set)

theorem length_references (store : Store) :
    store.references.length = store.collectionCount := by
  simp [references, collectionCount, Nat.add_assoc]

end Store

theorem Denotes.mem_references
    {reference : Reference} {literal : Literal}
    (denotes : Denotes store (.collection reference) literal) :
    reference ∈ store.references := by
  cases denotes with
  | array found => simp [Store.references, (Array.getElem?_eq_some_iff.mp found).1]
  | map found => simp [Store.references, (Array.getElem?_eq_some_iff.mp found).1]
  | set found => simp [Store.references, (Array.getElem?_eq_some_iff.mp found).1]

/-- The room and the path with which a literal is reached inside others: the collections on
the path denote greater literals, and the room is what the path leaves of the store. -/
structure Clear (store : Store) (room : Nat) (path : List Reference) (literal : Literal) :
    Prop where
  distinct : path.Nodup
  above : ∀ reference ∈ path, ∃ outer,
    Denotes store (.collection reference) outer ∧ sizeOf literal < sizeOf outer
  enough : store.collectionCount ≤ room + path.length

namespace Clear

theorem start (store : Store) (literal : Literal) :
    Clear store store.collectionCount [] literal :=
  ⟨.nil, fun _ member => (List.not_mem_nil member).elim, Nat.le_refl _⟩

/-- A collection reached along a clear path is not on it and can be entered. -/
theorem enter
    {reference : Reference} {literal : Literal}
    (clear : Clear store room path literal)
    (denotes : Denotes store (.collection reference) literal) :
    reference ∉ path ∧ ∃ inner, room = inner + 1 ∧
      ∀ part : Literal, sizeOf part < sizeOf literal →
        Clear store inner (reference :: path) part := by
  have fresh : reference ∉ path := by
    intro member
    obtain ⟨outer, outerDenotes, smaller⟩ := clear.above reference member
    rw [denotes.unique outerDenotes] at smaller
    exact Nat.lt_irrefl _ smaller
  have distinct : (reference :: path).Nodup := List.nodup_cons.mpr ⟨fresh, clear.distinct⟩
  have present : reference :: path ⊆ store.references := by
    intro other member
    rcases List.mem_cons.mp member with rfl | onPath
    · exact denotes.mem_references
    · obtain ⟨outer, outerDenotes, _⟩ := clear.above other onPath
      exact outerDenotes.mem_references
  have bounded : path.length + 1 ≤ store.collectionCount := by
    rw [← store.length_references]
    exact (distinct.subperm present).length_le
  have enough := clear.enough
  refine ⟨fresh, room - 1, by omega, fun part smaller => ⟨distinct, ?_, ?_⟩⟩
  · intro other member
    rcases List.mem_cons.mp member with rfl | onPath
    · exact ⟨literal, denotes, smaller⟩
    · obtain ⟨outer, outerDenotes, below⟩ := clear.above other onPath
      exact ⟨outer, outerDenotes, Nat.lt_trans smaller below⟩
  · rw [List.length_cons]
    omega

end Clear

theorem zip_covers
    {γ : Type} {same : γ → γ → Prop} {lefts : List α} {rights : List β} {onLeft : α → γ}
    {onRight : β → γ}
    (sizes : lefts.length = rights.length)
    (agree : ∀ pair ∈ lefts.zip rights, same (onLeft pair.1) (onRight pair.2)) :
    Covers same (lefts.map onLeft) (rights.map onRight) := by
  have pointwise : List.Forall₂ (fun left right => same (onLeft left) (onRight right))
      lefts rights :=
    List.forall₂_iff_zip.mpr ⟨sizes, fun member => agree _ member⟩
  clear agree sizes
  induction pointwise with
  | nil => exact ⟨nofun, nofun⟩
  | @cons left right lefts rights headSame _ hypothesis =>
    constructor
    · intro mapped member
      rcases List.mem_cons.mp member with rfl | inTail
      · exact ⟨_, List.mem_cons_self .., headSame⟩
      · obtain ⟨other, otherMember, same⟩ := hypothesis.1 mapped inTail
        exact ⟨other, List.mem_cons_of_mem _ otherMember, same⟩
    · intro mapped member
      rcases List.mem_cons.mp member with rfl | inTail
      · exact ⟨_, List.mem_cons_self .., headSame⟩
      · obtain ⟨other, otherMember, same⟩ := hypothesis.2 mapped inTail
        exact ⟨other, List.mem_cons_of_mem _ otherMember, same⟩

namespace Denotes

variable {value : Value} {literal : Literal}

theorem displayAlong_eq
    (denotes : Denotes store value literal)
    (clear : Clear store room path literal) :
    store.displayAlong room path true value = literal.text := by
  induction denotes generalizing room path with
  | int | str | char | bool => simp [Store.displayAlong, Store.scalarText, Literal.text]
  | @array index items literals found sizes parts hypothesis =>
    obtain ⟨fresh, inner, rfl, inside⟩ := clear.enter (.array found sizes parts)
    simp only [Store.displayAlong, if_neg fresh, Store.items, found, Option.getD_some,
      Literal.text]
    refine congrArg (Store.bracketed _ _) (map_eq_of_zip sizes fun pair member => ?_)
    have second := (List.of_mem_zip member).2
    exact hypothesis pair member (inside _ (Literal.sizeOf_item_lt second))
  | @map index entries literals found sizes names values keys nameHypothesis valueHypothesis =>
    obtain ⟨fresh, inner, rfl, inside⟩ := clear.enter (.map found sizes names values keys)
    simp only [Store.displayAlong, if_neg fresh, Store.entries, found, Option.getD_some,
      Literal.text]
    refine congrArg (Store.bracketed _ _) (map_eq_of_zip sizes fun pair member => ?_)
    have second := (List.of_mem_zip member).2
    rw [nameHypothesis pair member (inside _ (Literal.sizeOf_fst_lt second)),
      valueHypothesis pair member (inside _ (Literal.sizeOf_snd_lt second))]
  | @set index elements literals found sizes parts keys hypothesis =>
    obtain ⟨fresh, inner, rfl, inside⟩ := clear.enter (.set found sizes parts keys)
    simp only [Store.displayAlong, if_neg fresh, Store.elements, found, Option.getD_some,
      Literal.text]
    refine congrArg (Store.bracketed _ _) (map_eq_of_zip sizes fun pair member => ?_)
    have second := (List.of_mem_zip member).2
    exact hypothesis pair member (inside _ (Literal.sizeOf_element_lt second))

/-- The display of a value is the text of the literal that it denotes. -/
theorem displayNested_eq (denotes : Denotes store value literal) :
    store.displayNested value = literal.text := by
  rw [store.displayNested_eq_displayAlong]
  exact denotes.displayAlong_eq (.start store literal)

theorem keyAlong_same
    (denotes : Denotes store value literal)
    (clear : Clear store room path literal) :
    (store.keyAlong room path value).same literal.key = true := by
  induction denotes generalizing room path with
  | int | str | char | bool => simp [Store.keyAlong, Store.scalarKey, Literal.key, Key.same]
  | @array index items literals found sizes parts hypothesis =>
    obtain ⟨fresh, inner, rfl, inside⟩ := clear.enter (.array found sizes parts)
    simp only [Store.keyAlong, if_neg fresh, Store.items, found, Option.getD_some,
      Literal.key]
    rw [Key.array_same_iff, List.forall₂_map_left_iff, List.forall₂_map_right_iff,
      List.forall₂_iff_zip]
    refine ⟨sizes, fun member => hypothesis _ member (inside _ ?_)⟩
    exact Literal.sizeOf_item_lt (List.of_mem_zip member).2
  | @map index entries literals found sizes names values keys _ valueHypothesis =>
    obtain ⟨fresh, inner, rfl, inside⟩ := clear.enter (.map found sizes names values keys)
    simp only [Store.keyAlong, if_neg fresh, Store.entries, found, Option.getD_some,
      Literal.key]
    rw [Key.map_same_iff]
    refine zip_covers sizes fun pair member => (KeyEntry.same_iff _ _ _ _).mpr ?_
    have second := (List.of_mem_zip member).2
    exact ⟨keys pair member,
      valueHypothesis pair member (inside _ (Literal.sizeOf_snd_lt second))⟩
  | @set index elements literals found sizes parts keys _ =>
    obtain ⟨fresh, inner, rfl, _⟩ := clear.enter (.set found sizes parts keys)
    simp only [Store.keyAlong, if_neg fresh, Store.elements, found, Option.getD_some,
      Literal.key]
    rw [Key.set_same_iff]
    exact zip_covers sizes keys

/-- The key of a value is the key of the literal that it denotes. -/
theorem key_same (denotes : Denotes store value literal) :
    (store.key value).same literal.key = true := by
  rw [store.key_eq_keyAlong]
  exact denotes.keyAlong_same (.start store literal)

end Denotes

namespace Store

/-- Values with the same key are equal. -/
theorem equal_of_same_key
    {left right : Value}
    (same : (store.key left).same (store.key right) = true) :
    store.equal left right = true := by
  unfold Store.equal
  split
  · rw [same, Bool.or_true]
  · exact same

/-- A value that can be written down, with at most so many levels of phrases inside its
brackets: integers that fit, texts, characters, truth values, arrays, and maps and sets that
are not empty, whose names or elements are unequal and stored under their keys. -/
inductive Writable (store : Store) : (levels : Nat) → Value → Prop where
  | int
      {levels : Nat} {number : Int} :
      Scan.leastInteger ≤ number → number ≤ Scan.greatestInteger →
      Writable store levels (.int number)
  | str
      {levels : Nat} {content : Text} :
      Writable store levels (.str content)
  | char
      {levels : Nat} {code : CodePoint} :
      Writable store levels (.char code)
  | bool
      {levels : Nat} {truth : Bool} :
      Writable store levels (.bool truth)
  | emptyArray
      {levels index : Nat} :
      store.arrays[index]? = some [] →
      Writable store levels (.collection (.array index))
  | array
      {levels index : Nat} {items : List Value} :
      store.arrays[index]? = some items →
      (∀ item ∈ items, Writable store levels item) →
      Writable store (levels + 6) (.collection (.array index))
  | map
      {levels index : Nat} {entries : List MapEntry} :
      store.maps[index]? = some entries →
      entries ≠ [] →
      (∀ entry ∈ entries, Writable store levels entry.name) →
      (∀ entry ∈ entries, Writable store levels entry.value) →
      (∀ entry ∈ entries, entry.key.same (store.key entry.name) = true) →
      entries.Pairwise (fun first second => store.equal first.name second.name = false) →
      Writable store (levels + 6) (.collection (.map index))
  | set
      {levels index : Nat} {elements : List SetEntry} :
      store.sets[index]? = some elements →
      elements ≠ [] →
      (∀ entry ∈ elements, Writable store levels entry.element) →
      (∀ entry ∈ elements, entry.key.same (store.key entry.element) = true) →
      elements.Pairwise (fun first second =>
        store.equal first.element second.element = false) →
      Writable store (levels + 6) (.collection (.set index))

end Store

theorem exists_zip
    {related : α → β → Prop} {parts : List α}
    (each : ∀ part ∈ parts, ∃ whole, related part whole) :
    ∃ wholes, parts.length = wholes.length ∧
      ∀ pair ∈ parts.zip wholes, related pair.1 pair.2 := by
  induction parts with
  | nil => exact ⟨[], rfl, nofun⟩
  | cons part parts hypothesis =>
    obtain ⟨whole, headRelated⟩ := each part (List.mem_cons_self ..)
    obtain ⟨wholes, sizes, tailRelated⟩ :=
      hypothesis fun other member => each other (List.mem_cons_of_mem _ member)
    refine ⟨whole :: wholes, congrArg (· + 1) sizes, ?_⟩
    intro pair member
    rcases List.mem_cons.mp member with rfl | inTail
    · exact headRelated
    · exact tailRelated pair inTail

theorem exists_mem_zip
    {parts : List α} {wholes : List β}
    (sizes : parts.length = wholes.length)
    {whole : β}
    (member : whole ∈ wholes) :
    ∃ part, (part, whole) ∈ parts.zip wholes := by
  rw [← List.map_snd_zip (Nat.le_of_eq sizes.symm)] at member
  obtain ⟨⟨part, _⟩, inZip, rfl⟩ := List.mem_map.mp member
  exact ⟨part, inZip⟩

theorem pairwise_zip
    {onParts : α → α → Prop} {onWholes : β → β → Prop} {parts : List α}
    {wholes : List β}
    (sizes : parts.length = wholes.length)
    (partsPairwise : parts.Pairwise onParts)
    (carry : ∀ first ∈ parts.zip wholes, ∀ second ∈ parts.zip wholes,
      onParts first.1 second.1 → onWholes first.2 second.2) :
    wholes.Pairwise onWholes := by
  rw [← List.map_fst_zip (Nat.le_of_eq sizes), List.pairwise_map] at partsPairwise
  rw [← List.map_snd_zip (Nat.le_of_eq sizes.symm), List.pairwise_map]
  exact partsPairwise.imp_of_mem fun firstMember secondMember =>
    carry _ firstMember _ secondMember

namespace Denotes

/-- Unequal values denote literals with different keys. -/
theorem keys_differ
    {first second : Value} {firstLiteral secondLiteral : Literal}
    (firstDenotes : Denotes store first firstLiteral)
    (secondDenotes : Denotes store second secondLiteral)
    (unequal : store.equal first second = false) :
    firstLiteral.key.same secondLiteral.key = false := by
  rw [← Bool.not_eq_true]
  intro same
  have equal := Store.equal_of_same_key (Key.same_trans firstDenotes.key_same
    (Key.same_trans same (Key.same_symm secondDenotes.key_same)))
  exact Bool.false_ne_true (unequal.symm.trans equal)

end Denotes

/-- A value that can be written down denotes a proper literal. -/
theorem Store.Writable.denotes
    {levels : Nat} {value : Value}
    (writable : store.Writable levels value) :
    ∃ literal : Literal, literal.Proper levels ∧ Denotes store value literal := by
  induction writable with
  | int least greatest => exact ⟨_, .int least greatest, .int⟩
  | str => exact ⟨_, .str, .str⟩
  | char => exact ⟨_, .char, .char⟩
  | bool => exact ⟨_, .bool, .bool⟩
  | emptyArray found => exact ⟨.array [], .emptyArray, .array found rfl nofun⟩
  | array found _ hypothesis =>
    obtain ⟨literals, sizes, parts⟩ := exists_zip hypothesis
    refine ⟨.array literals, .array ?_, .array found sizes fun pair member =>
      (parts pair member).2⟩
    intro literal member
    obtain ⟨item, inZip⟩ := exists_mem_zip sizes member
    exact (parts _ inZip).1
  | @map levels index entries found nonempty _ _ keyed unequal nameHypothesis valueHypothesis =>
    have each : ∀ entry ∈ entries, ∃ pair : Literal × Literal,
        (pair.1.Proper levels ∧ Denotes store entry.name pair.1) ∧
          pair.2.Proper levels ∧ Denotes store entry.value pair.2 := by
      intro entry member
      obtain ⟨name, nameDenotes⟩ := nameHypothesis entry member
      obtain ⟨value, valueDenotes⟩ := valueHypothesis entry member
      exact ⟨(name, value), nameDenotes, valueDenotes⟩
    obtain ⟨literals, sizes, parts⟩ := exists_zip each
    refine ⟨.map literals, .map ?_ ?_ ?_ ?_, .map found sizes ?_ ?_ ?_⟩
    · rintro rfl
      exact nonempty (List.eq_nil_of_length_eq_zero sizes)
    · intro pair member
      obtain ⟨entry, inZip⟩ := exists_mem_zip sizes member
      exact (parts _ inZip).1.1
    · intro pair member
      obtain ⟨entry, inZip⟩ := exists_mem_zip sizes member
      exact (parts _ inZip).2.1
    · exact pairwise_zip sizes unequal fun first firstMember second secondMember =>
        (parts first firstMember).1.2.keys_differ (parts second secondMember).1.2
    · exact fun pair member => (parts pair member).1.2
    · exact fun pair member => (parts pair member).2.2
    · intro pair member
      exact Key.same_trans (keyed pair.1 (List.of_mem_zip member).1)
        (parts pair member).1.2.key_same
  | set found nonempty _ keyed unequal hypothesis =>
    obtain ⟨literals, sizes, parts⟩ := exists_zip hypothesis
    refine ⟨.set literals, .set ?_ ?_ ?_, .set found sizes ?_ ?_⟩
    · rintro rfl
      exact nonempty (List.eq_nil_of_length_eq_zero sizes)
    · intro literal member
      obtain ⟨item, inZip⟩ := exists_mem_zip sizes member
      exact (parts _ inZip).1
    · exact pairwise_zip sizes unequal fun first firstMember second secondMember =>
        (parts first firstMember).2.keys_differ (parts second secondMember).2
    · exact fun pair member => (parts pair member).2
    · intro pair member
      exact Key.same_trans (keyed pair.1 (List.of_mem_zip member).1)
        (parts pair member).2.key_same

end Offside
