import Offside.Proofs.Keys.Classes

namespace Offside

/-!
# What becomes of a value as plain data

A value without cycles becomes plain data unless one of its keys cannot be a key there.  Arrays
keep all their items.  Maps and sets keep one entry for each class of their keys, so entries
are merged exactly where plain data do not tell their keys apart.  `Store.Becomes` says all this
without a bound on the depth; the conversion finds what it says.

Entries are converted one by one.  What one more entry does to the rows so far is
`Store.Tabulates.enter`, and `Store.exists_tabulates` follows it through all entries.
-/

namespace Store

/-- The keys of a collection: the names of a map and the elements of a set. -/
def keys (store : Store) : Reference → List Value
  | .array _ => []
  | .map index => (store.entries index).map (·.name)
  | .set index => (store.elements index).map (·.element)

/-- Every key in a value, also inside other keys, has a class. -/
def KeysFixed (store : Store) (value : Value) : Prop :=
  ∀ reference, store.Reaches value (.collection reference) →
    ∀ key ∈ store.keys reference, (store.keyClass? key).isSome = true

/-- The different classes that some keys have. -/
structure Classes (store : Store) (keys : List Value) (classes : List KeyClass) : Prop where
  distinct : classes.Nodup
  complete : ∀ keyClass, keyClass ∈ classes ↔ ∃ key ∈ keys, store.keyClass? key = some keyClass

/-- No two keys of a collection are of one class. -/
def KeysDiffer (store : Store) (reference : Reference) : Prop :=
  (store.keys reference).Pairwise fun first second =>
    store.keyClass? first ≠ store.keyClass? second

/-- A plain value belongs to the last map entry whose name is of a class. -/
def IsLast (store : Store) (keyClass : KeyClass) (pairs : List (MapEntry × Plain))
    (value : Plain) : Prop :=
  ∃ earlier entry later, pairs = earlier ++ (entry, value) :: later ∧
    store.keyClass? entry.name = some keyClass ∧
    ∀ pair ∈ later, store.keyClass? pair.1.name ≠ some keyClass

/-- What a value becomes as plain data.  A map becomes a table with one row for each class of
its names, which holds a key of the class and the last value under it.  A set becomes a group
with one element for each class of its elements. -/
inductive Becomes (store : Store) : Value → Plain → Prop where
  | int (value : Int) :
      Becomes store (.int value) (.int value)
  | float (value : Float) (occurrence : Nat) :
      Becomes store (.float value occurrence) (.float value occurrence)
  | str (value : Text) :
      Becomes store (.str value) (.text value)
  | char (value : CodePoint) :
      Becomes store (.char value) (.text [value])
  | bool (value : Bool) :
      Becomes store (.bool value) (.bool value)
  | closure (index : Nat) :
      Becomes store (.closure index) (.closure index)
  | builtin (function : Builtin) :
      Becomes store (.builtin function) (.builtin function)
  | array
      {index : Nat} {items : List Plain} :
      List.Forall₂ (Becomes store) (store.items index) items →
      Becomes store (.collection (.array index)) (.list items)
  | map
      {index : Nat} {values : List Plain} {classes : List KeyClass}
      {rows : List (Plain × Plain)} :
      List.Forall₂ (fun entry value => Becomes store entry.value value) (store.entries index)
        values →
      store.Classes (store.keys (.map index)) classes →
      List.Forall₂ (fun keyClass row => row.1.HasClass keyClass ∧
        store.IsLast keyClass ((store.entries index).zip values) row.2) classes rows →
      Becomes store (.collection (.map index)) (.table rows)
  | set
      {index : Nat} {classes : List KeyClass} {elements : List Plain} :
      store.Classes (store.keys (.set index)) classes →
      List.Forall₂ (fun keyClass element => element.HasClass keyClass) classes elements →
      Becomes store (.collection (.set index)) (.group elements)

/-! ## Classes of keys -/

namespace Classes

variable {store : Store} {keys : List Value} {key : Value} {classes : List KeyClass}
  {keyClass : KeyClass}

theorem nil : store.Classes [] [] :=
  ⟨.nil, by simp⟩

theorem known
    (listed : store.Classes keys classes)
    (isClass : store.keyClass? key = some keyClass)
    (isKnown : keyClass ∈ classes) :
    store.Classes (keys ++ [key]) classes where
  distinct := listed.distinct
  complete other := by
    rw [listed.complete]
    constructor
    · rintro ⟨earlier, member, isOther⟩
      exact ⟨earlier, List.mem_append_left _ member, isOther⟩
    · rintro ⟨later, member, isOther⟩
      rcases List.mem_append.mp member with inKeys | isKey
      · exact ⟨later, inKeys, isOther⟩
      · obtain rfl := List.mem_singleton.mp isKey
        obtain rfl := Option.some.inj (isClass.symm.trans isOther)
        exact (listed.complete keyClass).mp isKnown

theorem new
    (listed : store.Classes keys classes)
    (isClass : store.keyClass? key = some keyClass)
    (isNew : keyClass ∉ classes) :
    store.Classes (keys ++ [key]) (classes ++ [keyClass]) where
  distinct := listed.distinct.append (List.nodup_singleton _) (by simpa using isNew)
  complete other := by
    rw [List.mem_append, listed.complete, List.mem_singleton]
    simp [or_and_right, exists_or, isClass, eq_comm]

/-- There are as many classes as keys exactly if no two keys are of one class. -/
theorem length_eq_iff
    (listed : store.Classes keys classes)
    (fixed : ∀ key ∈ keys, (store.keyClass? key).isSome = true) :
    classes.length = keys.length ↔
      keys.Pairwise fun first second => store.keyClass? first ≠ store.keyClass? second := by
  have distinct : (classes.map some).Nodup := listed.distinct.map (Option.some_injective _)
  have sameMembers (found : Option KeyClass) :
      found ∈ classes.map some ↔ found ∈ keys.map store.keyClass? := by
    simp only [List.mem_map, listed.complete]
    constructor
    · rintro ⟨keyClass, ⟨key, member, isClass⟩, rfl⟩
      exact ⟨key, member, isClass⟩
    · rintro ⟨key, member, rfl⟩
      obtain ⟨keyClass, isClass⟩ := Option.isSome_iff_exists.mp (fixed key member)
      exact ⟨keyClass, ⟨key, member, isClass⟩, isClass.symm⟩
  rw [← List.length_map some, ← List.length_map store.keyClass?, ← List.pairwise_map]
  constructor
  · intro sameLength
    have inside := distinct.subperm fun found member => (sameMembers found).mp member
    exact (inside.perm_of_length_le sameLength.ge).nodup_iff.mp distinct
  · intro different
    exact ((List.perm_ext_iff_of_nodup distinct different).mpr sameMembers).length_eq

end Classes

end Store

/-! ## Rows and elements -/

namespace Plain

variable {good better : KeyClass → Plain → Prop} {classes : List KeyClass} {keyClass : KeyClass}
  {rows : List (Plain × Plain)} {elements : List Plain} {key value : Plain}

/-- A value that is entered under a known class replaces the one in the row of the class. -/
theorem enter_of_mem
    (filled : List.Forall₂ (fun other row => row.1.HasClass other ∧ good other row.2) classes rows)
    (distinct : classes.Nodup)
    (hasClass : key.HasClass keyClass)
    (member : keyClass ∈ classes)
    (replaced : better keyClass value)
    (kept : ∀ other old, other ≠ keyClass → good other old → better other old) :
    List.Forall₂ (fun other row => row.1.HasClass other ∧ better other row.2) classes
      (enter key value rows) := by
  induction filled with
  | nil => cases member
  | @cons other row classes rows first filled hypothesis =>
    obtain ⟨known, old⟩ := row
    obtain ⟨isOther, isGood⟩ := first
    obtain ⟨notLater, distinct⟩ := List.nodup_cons.mp distinct
    by_cases here : other = keyClass
    · subst here
      rw [enter, if_pos ((isOther.same_iff hasClass).mpr rfl)]
      refine .cons ⟨isOther, replaced⟩ (pointwise_imp filled fun later inClasses row _ both => ?_)
      exact ⟨both.1, kept later row.2 (fun same => notLater (same ▸ inClasses)) both.2⟩
    · rw [enter, if_neg fun same => here ((isOther.same_iff hasClass).mp same)]
      refine .cons ⟨isOther, kept other old here isGood⟩ (hypothesis distinct ?_)
      exact (List.mem_cons.mp member).resolve_left (Ne.symm here)

/-- A value that is entered under a new class gets a row of its own at the end. -/
theorem enter_of_not_mem
    (filled : List.Forall₂ (fun other row => row.1.HasClass other ∧ good other row.2) classes rows)
    (hasClass : key.HasClass keyClass)
    (notMember : keyClass ∉ classes) :
    enter key value rows = rows ++ [(key, value)] := by
  induction filled with
  | nil => rfl
  | @cons other row _ _ first _ hypothesis =>
    obtain ⟨known, old⟩ := row
    obtain ⟨notHere, notLater⟩ := not_or.mp (List.mem_cons.not.mp notMember)
    have different : ¬ known.same key = true := fun same =>
      notHere ((first.1.same_iff hasClass).mp same).symm
    rw [enter, if_neg different, hypothesis notLater, List.cons_append]

/-- An element is added exactly if its class is new. -/
theorem any_same_iff
    (filled : List.Forall₂ (fun other element => element.HasClass other) classes elements)
    (hasClass : key.HasClass keyClass) :
    elements.any (·.same key) = true ↔ keyClass ∈ classes := by
  induction filled with
  | nil => simp
  | cons first _ hypothesis =>
    rw [List.any_cons, Bool.or_eq_true, first.same_iff hasClass, hypothesis, List.mem_cons, eq_comm]

end Plain

namespace Store

variable {store : Store}

/-- The rows of a table after some entries of a map, with the plain data of their values. -/
structure Tabulates (store : Store) (pairs : List (MapEntry × Plain)) (classes : List KeyClass)
    (rows : List (Plain × Plain)) : Prop where
  listed : store.Classes (pairs.map (·.1.name)) classes
  filled : List.Forall₂ (fun keyClass row => row.1.HasClass keyClass ∧
    store.IsLast keyClass pairs row.2) classes rows

/-- One more entry keeps one row for each class. -/
theorem Tabulates.enter
    {pairs : List (MapEntry × Plain)} {classes : List KeyClass} {rows : List (Plain × Plain)}
    {entry : MapEntry} {key : Plain} {keyClass : KeyClass}
    (tabulates : store.Tabulates pairs classes rows)
    (value : Plain)
    (isClass : store.keyClass? entry.name = some keyClass)
    (hasClass : key.HasClass keyClass) :
    ∃ more, store.Tabulates (pairs ++ [(entry, value)]) more (Plain.enter key value rows) := by
  have isLast : store.IsLast keyClass (pairs ++ [(entry, value)]) value :=
    ⟨pairs, entry, [], rfl, isClass, List.forall_mem_nil _⟩
  have stillLast (other : KeyClass) (old : Plain) (different : other ≠ keyClass) :
      store.IsLast other pairs old → store.IsLast other (pairs ++ [(entry, value)]) old := by
    rintro ⟨earlier, last, later, rfl, isOther, notLater⟩
    refine ⟨earlier, last, later ++ [(entry, value)], by simp, isOther, ?_⟩
    refine List.forall_mem_append.mpr ⟨notLater, List.forall_mem_singleton.mpr ?_⟩
    exact fun same => different (Option.some.inj (same.symm.trans isClass))
  by_cases known : keyClass ∈ classes
  · refine ⟨classes, ?_, ?_⟩
    · rw [List.map_append]
      exact tabulates.listed.known isClass known
    · exact Plain.enter_of_mem tabulates.filled tabulates.listed.distinct hasClass known isLast
        stillLast
  · refine ⟨classes ++ [keyClass], ?_, ?_⟩
    · rw [List.map_append]
      exact tabulates.listed.new isClass known
    · rw [Plain.enter_of_not_mem tabulates.filled hasClass known]
      refine List.rel_append (pointwise_imp tabulates.filled fun other member row _ both => ?_)
        (.cons ⟨hasClass, isLast⟩ .nil)
      exact ⟨both.1, stillLast other row.2 (fun same => known (same ▸ member)) both.2⟩

/-- The rows after all entries, if each step enters a key of the class of its name. -/
theorem exists_tabulates
    {step : List (Plain × Plain) → MapEntry → Except Unfixed (List (Plain × Plain))}
    {entries : List MapEntry}
    (each : ∀ entry ∈ entries, ∃ keyClass key value,
      store.keyClass? entry.name = some keyClass ∧ key.HasClass keyClass ∧
      store.Becomes entry.value value ∧ ∀ rows, step rows entry = .ok (Plain.enter key value rows))
    {pairs : List (MapEntry × Plain)} {classes : List KeyClass} {rows : List (Plain × Plain)}
    (tabulates : store.Tabulates pairs classes rows) :
    ∃ after, entries.foldlM step rows = .ok after ∧ ∃ values all,
      List.Forall₂ (fun entry value => store.Becomes entry.value value) entries values ∧
      store.Tabulates (pairs ++ entries.zip values) all after := by
  induction entries generalizing pairs classes rows with
  | nil => exact ⟨rows, rfl, [], classes, .nil, by simpa using tabulates⟩
  | cons entry entries hypothesis =>
    obtain ⟨⟨keyClass, key, value, isClass, hasClass, becomes, isStep⟩, rest⟩ :=
      List.forall_mem_cons.mp each
    obtain ⟨more, next⟩ := tabulates.enter value isClass hasClass
    obtain ⟨after, runs, values, all, become, atEnd⟩ := hypothesis rest next
    refine ⟨after, ?_, value :: values, all, .cons becomes become, by simpa using atEnd⟩
    rw [List.foldlM_cons, isStep]
    exact runs

/-- The elements of a group after all elements, if each step adds a key of its class. -/
theorem exists_elements
    {step : List Plain → SetEntry → Except Unfixed (List Plain)}
    {entries : List SetEntry}
    (each : ∀ entry ∈ entries, ∃ keyClass key,
      store.keyClass? entry.element = some keyClass ∧ key.HasClass keyClass ∧
      ∀ elements, step elements entry = .ok (Plain.adjoin key elements))
    {keys : List Value} {classes : List KeyClass} {elements : List Plain}
    (listed : store.Classes keys classes)
    (filled : List.Forall₂ (fun keyClass element => element.HasClass keyClass) classes elements) :
    ∃ after, entries.foldlM step elements = .ok after ∧ ∃ all,
      store.Classes (keys ++ entries.map (·.element)) all ∧
      List.Forall₂ (fun keyClass element => element.HasClass keyClass) all after := by
  induction entries generalizing keys classes elements with
  | nil => exact ⟨elements, rfl, classes, by simpa using listed, filled⟩
  | cons entry entries hypothesis =>
    obtain ⟨⟨keyClass, key, isClass, hasClass, isStep⟩, rest⟩ := List.forall_mem_cons.mp each
    rw [List.foldlM_cons, isStep, List.map_cons, List.append_cons]
    by_cases known : keyClass ∈ classes
    · rw [Plain.adjoin, if_pos ((Plain.any_same_iff filled hasClass).mpr known)]
      exact hypothesis rest (listed.known isClass known) filled
    · rw [Plain.adjoin, if_neg fun same => known ((Plain.any_same_iff filled hasClass).mp same)]
      exact hypothesis rest (listed.new isClass known)
        (List.rel_append filled (.cons hasClass .nil))

/-! ## The conversion -/

theorem scalar?_eq_of_becomes
    {value : Value} {plain : Plain} {scalar : Scalar}
    (becomes : store.Becomes value plain)
    (isScalar : value.scalar? = some scalar) :
    plain.scalar? = some scalar := by
  cases becomes with
  | bool value => cases value <;> exact isScalar
  | array | map | set | closure | builtin => cases isScalar
  | _ => exact isScalar

theorem items_scalar?_of_becomes
    {items : List Value} {plains : List Plain} {scalars : List Scalar}
    (become : List.Forall₂ store.Becomes items plains)
    (areScalars : List.Forall₂ (fun item scalar => item.scalar? = some scalar) items scalars) :
    List.Forall₂ (fun plain scalar => plain.scalar? = some scalar) plains scalars := by
  induction become generalizing scalars with
  | nil => cases areScalars; exact .nil
  | cons becomes _ hypothesis =>
    cases areScalars with
    | cons isScalar rest => exact .cons (scalar?_eq_of_becomes becomes isScalar) (hypothesis rest)

/-- The key of a value in plain data is of the class of the value. -/
theorem hasClass_plainKey
    {value : Value} {plain : Plain} {keyClass : KeyClass}
    (becomes : store.Becomes value plain)
    (isClass : store.keyClass? value = some keyClass) :
    (store.plainKey value plain).HasClass keyClass := by
  have whole := becomes
  cases becomes with
  | @array index items become =>
    obtain ⟨scalars, areScalars, rfl⟩ := Option.map_eq_some_iff.mp isClass
    refine .array (items_scalar?_of_becomes become ?_)
    exact mapM_scalar?_eq_some_iff.mp areScalars
  | @map index | @set index =>
    obtain rfl := Option.some.inj isClass
    exact .structured rfl (by simp [kind_key, Value.kind, Reference.kind])
  | closure | builtin => cases isClass
  | _ =>
    obtain rfl := Option.some.inj isClass
    exact .scalar (scalar?_eq_of_becomes whole rfl)

/-- A list is converted item by item if each item is. -/
theorem exists_mapM_eq
    {α β : Type} {convert : α → Except Unfixed β} {related : α → β → Prop} {items : List α}
    (each : ∀ item ∈ items, ∃ found, convert item = .ok found ∧ related item found) :
    ∃ found, items.mapM convert = .ok found ∧ List.Forall₂ related items found := by
  induction items with
  | nil => exact ⟨[], rfl, .nil⟩
  | cons item items hypothesis =>
    obtain ⟨⟨first, isFirst, agrees⟩, rest⟩ := List.forall_mem_cons.mp each
    obtain ⟨others, areOthers, agree⟩ := hypothesis rest
    refine ⟨first :: others, ?_, .cons agrees agree⟩
    rw [List.mapM_cons, isFirst, areOthers]
    rfl

/-- What is made of a result, if there is one. -/
theorem exists_ok_of_result
    {α : Type} {result : Except Unfixed α} {finish : α → Plain} {related : α → Prop}
    {good : Plain → Prop}
    (succeeds : ∃ found, result = .ok found ∧ related found)
    (finished : ∀ found, related found → good (finish found)) :
    ∃ plain, (do return finish (← result)) = Except.ok plain ∧ good plain := by
  obtain ⟨found, rfl, isRelated⟩ := succeeds
  exact ⟨finish found, rfl, finished found isRelated⟩

/-- A value is converted within some room. -/
abbrev Converts (store : Store) (room : Nat) (value : Value) : Prop :=
  ∃ plain, store.plainWithin room value = .ok plain ∧ store.Becomes value plain

section

variable {room index : Nat}

theorem converts_array
    (members : ∀ member ∈ store.members (.array index), store.Converts room member) :
    store.Converts (room + 1) (.collection (.array index)) := by
  rw [Converts, plainWithin]
  exact exists_ok_of_result (exists_mapM_eq members) fun _ become => .array become

theorem converts_map
    (members : ∀ member ∈ store.members (.map index), store.Converts room member)
    (fixed : ∀ key ∈ store.keys (.map index), (store.keyClass? key).isSome = true) :
    store.Converts (room + 1) (.collection (.map index)) := by
  have empty : store.Tabulates [] [] [] := ⟨.nil, .nil⟩
  rw [Converts, plainWithin]
  refine exists_ok_of_result (exists_tabulates (fun entry member => ?_) empty) ?_
  · obtain ⟨keyClass, isClass⟩ :=
      Option.isSome_iff_exists.mp (fixed entry.name (List.mem_map_of_mem member))
    obtain ⟨name, nameRuns, nameBecomes⟩ := members entry.name (name_mem_members member)
    obtain ⟨value, valueRuns, valueBecomes⟩ := members entry.value (value_mem_members member)
    have hasClass := hasClass_plainKey nameBecomes isClass
    refine ⟨keyClass, _, value, isClass, hasClass, valueBecomes, fun rows => ?_⟩
    rw [nameRuns, valueRuns]
    exact congrArg (fun key => do return Plain.enter (← key) value rows) hasClass.checked_eq
  · rintro rows ⟨values, classes, become, listed, filled⟩
    refine .map become ?_ filled
    rwa [List.nil_append, ← Function.comp_def, ← List.map_map, List.map_fst_zip] at listed
    exact become.length_eq.le

theorem converts_set
    (members : ∀ member ∈ store.members (.set index), store.Converts room member)
    (fixed : ∀ key ∈ store.keys (.set index), (store.keyClass? key).isSome = true) :
    store.Converts (room + 1) (.collection (.set index)) := by
  have empty : store.Classes [] [] := .nil
  rw [Converts, plainWithin]
  refine exists_ok_of_result (exists_elements (fun entry member => ?_) empty .nil) ?_
  · obtain ⟨keyClass, isClass⟩ :=
      Option.isSome_iff_exists.mp (fixed entry.element (List.mem_map_of_mem member))
    obtain ⟨element, runs, becomes⟩ := members entry.element (element_mem_members member)
    have hasClass := hasClass_plainKey becomes isClass
    refine ⟨keyClass, _, isClass, hasClass, fun elements => ?_⟩
    rw [runs]
    exact congrArg (fun key => do return Plain.adjoin (← key) elements) hasClass.checked_eq
  · rintro elements ⟨classes, listed, filled⟩
    exact .set listed filled

end

/-- A value without cycles whose keys have classes is converted. -/
theorem exists_becomes
    {value : Value}
    (acyclic : store.Acyclic value)
    (live : store.Live value)
    (fixed : store.KeysFixed value) :
    ∃ plain, store.plain value = .ok plain ∧ store.Becomes value plain := by
  suffices converts : ∀ room path, store.Leads room path value → store.KeysFixed value →
      store.Converts room value from
    converts _ [] (.start store value) fixed
  clear fixed
  refine acyclic.induction live fun outer acyclic live hypothesis room path leads fixed => ?_
  cases outer with
  | collection reference =>
    obtain ⟨-, less, rfl, inside⟩ := leads.enter acyclic live
    have members (member : Value) (isMember : member ∈ store.members reference) :
        store.Converts less member :=
      hypothesis member isMember less _ (inside member isMember) fun other reaches =>
        fixed other (.head isMember reaches)
    cases reference with
    | array => exact converts_array members
    | map => exact converts_map members (fixed _ .refl)
    | set => exact converts_set members (fixed _ .refl)
  | _ => exact ⟨_, by rw [plainWithin], by constructor⟩

end Store

/-- Plain data keep one entry for each class of keys.  A value without cycles whose keys all have
classes is converted.  The table or the group that a map or a set in it becomes has as many
entries as the map or the set exactly if no two of its keys are of one class. -/
theorem plain_data_keep_one_entry_per_class
    {store : Store}
    {value : Value}
    (acyclic : store.Acyclic value)
    (live : store.Live value)
    (fixed : store.KeysFixed value) :
    (∃ plain, store.plain value = .ok plain ∧ store.Becomes value plain) ∧
      (∀ index rows, store.Reaches value (.collection (.map index)) →
        store.Becomes (.collection (.map index)) (.table rows) →
        (rows.length = (store.entries index).length ↔ store.KeysDiffer (.map index))) ∧
      ∀ index elements, store.Reaches value (.collection (.set index)) →
        store.Becomes (.collection (.set index)) (.group elements) →
        (elements.length = (store.elements index).length ↔ store.KeysDiffer (.set index)) := by
  refine ⟨Store.exists_becomes acyclic live fixed, ?_, ?_⟩
  · rintro index rows reaches (_ | _ | _ | _ | _ | _ | _ | _ | ⟨-, listed, filled⟩)
    rw [← filled.length_eq, ← List.length_map MapEntry.name]
    exact listed.length_eq_iff (fixed _ reaches)
  · rintro index elements reaches (_ | _ | _ | _ | _ | _ | _ | _ | _ | ⟨listed, filled⟩)
    rw [← filled.length_eq, ← List.length_map SetEntry.element]
    exact listed.length_eq_iff (fixed _ reaches)

/-- A map with the names `1` and `1.0`, a map that holds it with an array and a character as its
names, an array with this map, and a set whose element is an array in an array. -/
def Store.mixedKeys : Store :=
  ⟨#[], #[[.int 1], [.collection (.array 0)], [.collection (.map 1), .int 7]],
    #[[⟨.int 1, .int 1, .str "a"⟩, ⟨.float 1.0 0, .float 1.0 0, .str "b"⟩],
      [⟨.array [.int 1], .collection (.array 0), .collection (.map 0)⟩,
        ⟨.char 'x', .char 'x', .bool true⟩]],
    #[[⟨.array [.array [.int 1]], .collection (.array 1)⟩]], #[], 0⟩

/-- How high a collection is in this store. -/
def Store.mixedKeysRank : Value → Nat
  | .collection (.array index) => 2 * index + 1
  | .collection (.map index) => index + 2
  | .collection (.set _) => 6
  | _ => 0

theorem Store.mixedKeys_settled
    {value : Value}
    (present : Store.mixedKeys.Present value) :
    Store.mixedKeys.Settled value where
  acyclic := Store.acyclic_of_rank Store.mixedKeysRank (by decide) value
  live := Store.live_of_present (by decide) present
  maps index _ := by
    rcases index with _ | _ | index
    · exact ⟨by decide, by decide⟩
    · exact ⟨by decide, by decide⟩
    · exact ⟨List.forall_mem_nil _, .nil⟩
  sets index _ := by
    rcases index with _ | index
    · exact ⟨by decide, by decide⟩
    · exact ⟨List.forall_mem_nil _, .nil⟩

/-- The outer map keeps its two entries, and the map in it does not. -/
theorem plain_data_keep_one_entry_per_class_mixedKeys :
    Store.mixedKeys.Settled (.collection (.array 2)) ∧
      Store.mixedKeys.KeysFixed (.collection (.array 2)) ∧
      (∃ plain, Store.mixedKeys.plain (.collection (.array 2)) = .ok plain ∧
        Store.mixedKeys.Becomes (.collection (.array 2)) plain) ∧
      (∀ rows, Store.mixedKeys.Becomes (.collection (.map 1)) (.table rows) → rows.length = 2) ∧
      ∀ rows, Store.mixedKeys.Becomes (.collection (.map 0)) (.table rows) → rows.length ≠ 2 := by
  have settled : Store.mixedKeys.Settled (.collection (.array 2)) :=
    Store.mixedKeys_settled (by decide)
  have fixed : Store.mixedKeys.KeysFixed (.collection (.array 2)) := by
    intro reference reaches
    rcases reference with index | (_ | _ | index) | (_ | index)
    · exact List.forall_mem_nil _
    · decide
    · decide
    · exact List.forall_mem_nil _
    · exact (Store.not_reaches_of_rank Store.mixedKeysRank (by decide) (by decide) reaches).elim
    · exact List.forall_mem_nil _
  have inOuter : .collection (.map 1) ∈ Store.mixedKeys.members (.array 2) := by decide
  have inInner : .collection (.map 0) ∈ Store.mixedKeys.members (.map 1) := by decide
  have oneClass : Store.mixedKeys.keyClass? (.int 1) = Store.mixedKeys.keyClass? (.float 1.0 0) :=
    have oneNumber : (Value.int 1).amount? = (Value.float 1.0 0).amount? :=
      (Plain.sameNumber_iff rfl rfl).mp rfl
    congrArg (·.map fun amount => KeyClass.scalar (.number amount)) oneNumber
  obtain ⟨converted, tables, -⟩ :=
    plain_data_keep_one_entry_per_class settled.acyclic settled.live fixed
  refine ⟨settled, fixed, converted, fun rows becomes => ?_, fun rows becomes same => ?_⟩
  · refine (tables 1 rows (.single inOuter) becomes).mpr
      (.cons (List.forall_mem_singleton.mpr ?_) (.cons (List.forall_mem_nil _) .nil))
    exact fun same => KeyClass.noConfusion (Option.some.inj same)
  · have differ := (tables 0 rows (.tail (.single inOuter) inInner) becomes).mp same
    cases differ with
    | cons first _ => exact first _ (List.mem_singleton_self _) oneClass

/-- Not every value is converted, and a map may lose entries: `1` and `1.0` are one key in plain
data, and an array with an array in it is none. -/
theorem conversion_merges_or_refuses_keys :
    Store.mixedKeys.Settled (.collection (.map 0)) ∧
      (Store.mixedKeys.entries 0).length = 2 ∧
      Store.mixedKeys.plain (.collection (.map 0)) = .ok (.table [(.int 1, .text "b")]) ∧
      Store.mixedKeys.Settled (.collection (.set 0)) ∧
      Store.mixedKeys.plain (.collection (.set 0)) = .error .list :=
  ⟨Store.mixedKeys_settled (by decide), rfl, rfl, Store.mixedKeys_settled (by decide), rfl⟩

end Offside
