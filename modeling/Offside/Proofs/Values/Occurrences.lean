import Offside.Proofs.Collections.Members

namespace Offside

/-!
# Display along the path from the root

An occurrence in a value is given by the places at which members are taken one after the
other, from the value down.  What stands above an occurrence on this path is its ancestors.
`Store.Shows` says by occurrences how a value is shown: a collection is elided where it is one
of its own ancestors and shown in full everywhere else, however often it is shared.  This rule
has no bound on the depth, and neither has `Store.HasKey` for keys.  Both give exactly one
result for every value, also where collections hold themselves, and it is the one that is
computed.
-/

namespace Store

/-- The value at an occurrence in another one. -/
def valueAt? (store : Store) : Value → (occurrence : List Nat) → Option Value
  | value, [] => some value
  | value, place :: places =>
    (store.inside value)[place]?.bind fun member => store.valueAt? member places

/-- A collection stands above an occurrence, on the path to it from the root. -/
def IsAncestor (store : Store) (root : Value) (reference : Reference)
    (occurrence : List Nat) : Prop :=
  ∃ above, above <+: occurrence ∧ above ≠ occurrence ∧
    store.valueAt? root above = some (.collection reference)

section

variable {store : Store} {root value : Value} {occurrence : List Nat} {reference : Reference}

theorem valueAt?_append (store : Store) (value : Value) (places others : List Nat) :
    store.valueAt? value (places ++ others) =
      (store.valueAt? value places).bind fun inner => store.valueAt? inner others := by
  induction places generalizing value with
  | nil => rfl
  | cons place places hypothesis =>
    simp only [List.cons_append, valueAt?]
    cases (store.inside value)[place]? with
    | none => rfl
    | some member => exact hypothesis member

theorem valueAt?_concat (found : store.valueAt? root occurrence = some value) (place : Nat) :
    store.valueAt? root (occurrence ++ [place]) = (store.inside value)[place]? := by
  rw [valueAt?_append, found, Option.bind_some, valueAt?]
  cases (store.inside value)[place]? with
  | none => rfl
  | some member => rfl

/-- What occurs in a value is reached from it. -/
theorem reaches_of_valueAt? (found : store.valueAt? root occurrence = some value) :
    store.Reaches root value := by
  induction occurrence generalizing root with
  | nil =>
    cases found
    exact .refl
  | cons place places hypothesis =>
    obtain ⟨member, isMember, further⟩ := Option.bind_eq_some_iff.mp found
    exact .head (List.mem_of_getElem? isMember) (hypothesis further)

theorem not_isAncestor_root : ¬ store.IsAncestor root reference [] := by
  rintro ⟨above, isPrefix, notRoot, -⟩
  exact notRoot (List.prefix_nil.mp isPrefix)

/-- The ancestors of a member are the collection that it is in and the ancestors of that. -/
theorem isAncestor_concat
    {holder : Reference}
    (found : store.valueAt? root occurrence = some (.collection holder))
    (place : Nat) :
    store.IsAncestor root reference (occurrence ++ [place]) ↔
      reference = holder ∨ store.IsAncestor root reference occurrence := by
  constructor
  · rintro ⟨above, isPrefix, notSame, foundAbove⟩
    have shorter : above <+: occurrence :=
      (List.prefix_concat_iff.mp isPrefix).resolve_left notSame
    by_cases same : above = occurrence
    · subst same
      cases found.symm.trans foundAbove
      exact .inl rfl
    · exact .inr ⟨above, shorter, same, foundAbove⟩
  · rintro (rfl | ⟨above, isPrefix, -, foundAbove⟩)
    · exact ⟨occurrence, List.prefix_append .., by simp, found⟩
    · refine ⟨above, isPrefix.trans (List.prefix_append ..), ?_, foundAbove⟩
      rintro rfl
      exact absurd isPrefix.length_le (by simp)

end

/-- Names and values in turn as the entries of a map. -/
def pairTexts : List Text → List Text
  | name :: value :: rest => (name ++ ": " ++ value) :: pairTexts rest
  | _ => []

/-- The display of a collection in full, from the displays of its members. -/
def assemble : Reference → List Text → Text
  | .array _, texts => bracketed '[' ']' texts
  | .map _, texts => bracketed '\x7b' '\x7d' (pairTexts texts)
  | .set _, texts => bracketed '\x7b' '\x7d' texts

/-- How an occurrence in a value is shown, by the path to it.  Only at the root may text be
bare. -/
inductive Shows (store : Store) (root : Value) (nested : Bool) : List Nat → Text → Prop where
  | scalar
      {occurrence : List Nat} {value : Value} :
      store.valueAt? root occurrence = some value →
      (∀ reference, value ≠ .collection reference) →
      Shows store root nested occurrence
        (store.scalarText (nested || !occurrence.isEmpty) value)
  | elided
      {occurrence : List Nat} {reference : Reference} :
      store.valueAt? root occurrence = some (.collection reference) →
      store.IsAncestor root reference occurrence →
      Shows store root nested occurrence reference.elided
  | full
      {occurrence : List Nat} {reference : Reference} {texts : List Text} :
      store.valueAt? root occurrence = some (.collection reference) →
      ¬ store.IsAncestor root reference occurrence →
      texts.length = (store.members reference).length →
      (∀ (place : Nat) (text : Text), texts[place]? = some text →
        Shows store root nested (occurrence ++ [place]) text) →
      Shows store root nested occurrence (assemble reference texts)

section

variable {store : Store} {root value : Value} {nested : Bool} {occurrence : List Nat}
  {room : Nat} {path : List Reference} {reference : Reference}

theorem displayAlong_of_mem (onPath : reference ∈ path) :
    store.displayAlong room path nested (.collection reference) = reference.elided := by
  cases room with
  | zero => simp only [displayAlong, scalarText]
  | succ room => rw [displayAlong, if_pos onPath]

theorem pairTexts_flatMap (show' : Value → Text) (entries : List MapEntry) :
    pairTexts ((entries.flatMap fun entry => [entry.name, entry.value]).map show') =
      entries.map fun entry => show' entry.name ++ ": " ++ show' entry.value := by
  induction entries with
  | nil => rfl
  | cons entry entries hypothesis =>
    simp only [List.flatMap_cons, List.map_cons, List.cons_append, List.nil_append, pairTexts,
      hypothesis]

theorem displayAlong_of_not_mem (offPath : reference ∉ path) :
    store.displayAlong (room + 1) path nested (.collection reference) =
      assemble reference
        ((store.members reference).map (store.displayAlong room (reference :: path) true)) := by
  rw [displayAlong, if_neg offPath]
  cases reference with
  | array index => rfl
  | map index =>
    show bracketed _ _ _ = bracketed _ _ (pairTexts _)
    rw [members, pairTexts_flatMap]
  | set index =>
    show bracketed _ _ _ = bracketed _ _ _
    rw [members, List.map_map]
    rfl

/-- The display along a path that consists of the ancestors is the display by occurrences. -/
theorem shows_displayAlong
    (live : store.Live root)
    (trail : store.Trail room path)
    (ancestors : ∀ reference, reference ∈ path ↔ store.IsAncestor root reference occurrence)
    (found : store.valueAt? root occurrence = some value) :
    store.Shows root nested occurrence
      (store.displayAlong room path (nested || !occurrence.isEmpty) value) := by
  induction room using Nat.strongRecOn generalizing path occurrence value with
  | ind room hypothesis =>
    cases value with
    | collection reference =>
      by_cases onPath : reference ∈ path
      · rw [displayAlong_of_mem onPath]
        exact .elided found ((ancestors reference).mp onPath)
      · have present := live reference (reaches_of_valueAt? found)
        obtain ⟨less, rfl, longer⟩ := trail.enter onPath present
        rw [displayAlong_of_not_mem onPath]
        refine .full found (fun above => onPath ((ancestors reference).mpr above))
          (List.length_map _) fun place text isText => ?_
        rw [List.getElem?_map] at isText
        obtain ⟨member, isMember, rfl⟩ := Option.map_eq_some_iff.mp isText
        have isInside : (nested || !(occurrence ++ [place]).isEmpty) = true := by
          cases occurrence <;> simp
        have above (other : Reference) :
            other ∈ reference :: path ↔
              store.IsAncestor root other (occurrence ++ [place]) := by
          rw [isAncestor_concat found, List.mem_cons, ancestors other]
        have foundBelow : store.valueAt? root (occurrence ++ [place]) = some member :=
          (valueAt?_concat found place).trans isMember
        rw [← isInside]
        exact hypothesis less (Nat.lt_succ_self less) longer above foundBelow
    | int | float | str | char | bool | closure | builtin =>
      rw [displayAlong_of_not_collection fun _ => Value.noConfusion]
      exact .scalar found fun _ => Value.noConfusion

/-- An occurrence is shown in one way only. -/
theorem Shows.unique
    {first second : Text}
    (shows : store.Shows root nested occurrence first)
    (showsToo : store.Shows root nested occurrence second) :
    first = second := by
  induction shows generalizing second with
  | scalar found bare =>
    cases showsToo with
    | scalar foundToo =>
      cases found.symm.trans foundToo
      rfl
    | elided foundToo
    | full foundToo => exact (bare _ (Option.some.inj (found.symm.trans foundToo))).elim
  | elided found above =>
    cases showsToo with
    | scalar foundToo bare =>
      exact (bare _ (Option.some.inj (foundToo.symm.trans found))).elim
    | elided foundToo =>
      cases found.symm.trans foundToo
      rfl
    | full foundToo notAbove =>
      cases found.symm.trans foundToo
      exact (notAbove above).elim
  | @full occurrence reference texts found notAbove sizes _ hypothesis =>
    cases showsToo with
    | scalar foundToo bare =>
      exact (bare _ (Option.some.inj (foundToo.symm.trans found))).elim
    | elided foundToo above =>
      cases found.symm.trans foundToo
      exact (notAbove above).elim
    | @full _ _ others foundToo _ sizesToo below =>
      cases found.symm.trans foundToo
      refine congrArg (assemble reference) (List.ext_getElem (sizes.trans sizesToo.symm) ?_)
      intro place inTexts inOthers
      exact hypothesis place _ (List.getElem?_eq_getElem inTexts)
        (below place _ (List.getElem?_eq_getElem inOthers))

theorem shows_iff_displayAlong (live : store.Live root) (nested : Bool) (text : Text) :
    store.Shows root nested [] text ↔
      text = store.displayAlong store.collectionCount [] nested root := by
  have ancestors (reference : Reference) :
      reference ∈ [] ↔ store.IsAncestor root reference [] :=
    iff_of_false List.not_mem_nil not_isAncestor_root
  have atRoot : store.Shows root nested []
      (store.displayAlong store.collectionCount [] (nested || !true) root) :=
    shows_displayAlong live (.start store) ancestors rfl
  rw [Bool.not_true, Bool.or_false] at atRoot
  exact ⟨fun shows => shows.unique atRoot, fun same => same ▸ atRoot⟩

end

/-- The key of a value that is reached along a path of collections.  What is keyed already, the
name of a map entry or an element of a set, is not looked into. -/
inductive HasKey (store : Store) : (path : List Reference) → Value → Key → Prop where
  | scalar
      {path : List Reference} {value : Value} :
      (∀ reference, value ≠ .collection reference) →
      HasKey store path value (scalarKey value)
  | again
      {path : List Reference} {reference : Reference} :
      reference ∈ path →
      HasKey store path (.collection reference) (.again reference)
  | array
      {path : List Reference} {index : Nat} {keys : List Key} :
      .array index ∉ path →
      keys.length = (store.items index).length →
      (∀ (place : Nat) (item : Value) (key : Key), (store.items index)[place]? = some item →
        keys[place]? = some key → HasKey store (.array index :: path) item key) →
      HasKey store path (.collection (.array index)) (.array keys)
  | map
      {path : List Reference} {index : Nat} {keys : List Key} :
      .map index ∉ path →
      keys.length = (store.entries index).length →
      (∀ (place : Nat) (entry : MapEntry) (key : Key),
        (store.entries index)[place]? = some entry → keys[place]? = some key →
        HasKey store (.map index :: path) entry.value key) →
      HasKey store path (.collection (.map index))
        (.map ((store.entries index).zipWith (fun entry key => .pair entry.key key) keys))
  | set
      {path : List Reference} {index : Nat} :
      .set index ∉ path →
      HasKey store path (.collection (.set index)) (.set ((store.elements index).map (·.key)))

section

variable {store : Store} {value : Value} {room : Nat} {path : List Reference}
  {reference : Reference}

theorem keyAlong_of_mem (onPath : reference ∈ path) :
    store.keyAlong room path (.collection reference) = .again reference := by
  cases room with
  | zero => simp only [keyAlong, scalarKey]
  | succ room => rw [keyAlong, if_pos onPath]

/-- Along a path of collections that are in the store, the key of a live value is found. -/
theorem hasKey_keyAlong (live : store.Live value) (trail : store.Trail room path) :
    store.HasKey path value (store.keyAlong room path value) := by
  induction room using Nat.strongRecOn generalizing path value with
  | ind room hypothesis =>
    cases value with
    | collection reference =>
      by_cases onPath : reference ∈ path
      · rw [keyAlong_of_mem onPath]
        exact .again onPath
      obtain ⟨less, rfl, longer⟩ := trail.enter onPath (live reference .refl)
      have below (member : Value) (isMember : member ∈ store.members reference) :
          store.HasKey (reference :: path) member
            (store.keyAlong less (reference :: path) member) :=
        hypothesis less (Nat.lt_succ_self less) (live.mono (.single isMember)) longer
      rw [keyAlong, if_neg onPath]
      cases reference with
      | array index =>
        refine .array onPath (List.length_map _) fun place item key isItem isKey => ?_
        rw [List.getElem?_map, isItem] at isKey
        cases isKey
        exact below item (List.mem_of_getElem? isItem)
      | map index =>
        have sameKeys : (store.entries index).map (fun entry => KeyEntry.pair entry.key
              (store.keyAlong less (.map index :: path) entry.value)) =
            (store.entries index).zipWith (fun entry key => .pair entry.key key)
              ((store.entries index).map fun entry =>
                store.keyAlong less (.map index :: path) entry.value) := by
          rw [List.zipWith_map_right, List.zipWith_self]
        dsimp only
        rw [sameKeys]
        refine .map onPath (List.length_map _) fun place entry key isEntry isKey => ?_
        rw [List.getElem?_map, isEntry] at isKey
        cases isKey
        refine below entry.value (List.mem_flatMap.mpr ⟨entry, ?_, by simp⟩)
        exact List.mem_of_getElem? isEntry
      | set index => exact .set onPath
    | int | float | str | char | bool | closure | builtin =>
      rw [keyAlong_of_not_collection fun _ => Value.noConfusion]
      exact .scalar fun _ => Value.noConfusion

/-- Along a path a value has one key only. -/
theorem HasKey.unique
    {first second : Key}
    (keyed : store.HasKey path value first)
    (keyedToo : store.HasKey path value second) :
    first = second := by
  induction keyed generalizing second with
  | scalar bare =>
    cases keyedToo with
    | scalar => rfl
    | again
    | array
    | map
    | set => exact (bare _ rfl).elim
  | again onPath =>
    cases keyedToo with
    | scalar bare => exact (bare _ rfl).elim
    | again => rfl
    | array offPath
    | map offPath
    | set offPath => exact (offPath onPath).elim
  | array offPath sizes _ hypothesis =>
    cases keyedToo with
    | scalar bare => exact (bare _ rfl).elim
    | again onPath => exact (offPath onPath).elim
    | array _ sizesToo below =>
      refine congrArg Key.array (List.ext_getElem (sizes.trans sizesToo.symm) ?_)
      intro place inFirst inSecond
      have isItem := List.getElem?_eq_getElem (sizes ▸ inFirst)
      exact hypothesis place _ _ isItem (List.getElem?_eq_getElem inFirst)
        (below place _ _ isItem (List.getElem?_eq_getElem inSecond))
  | map offPath sizes _ hypothesis =>
    cases keyedToo with
    | scalar bare => exact (bare _ rfl).elim
    | again onPath => exact (offPath onPath).elim
    | map _ sizesToo below =>
      refine congrArg (fun keys => Key.map (List.zipWith _ _ keys))
        (List.ext_getElem (sizes.trans sizesToo.symm) ?_)
      intro place inFirst inSecond
      have isEntry := List.getElem?_eq_getElem (sizes ▸ inFirst)
      exact hypothesis place _ _ isEntry (List.getElem?_eq_getElem inFirst)
        (below place _ _ isEntry (List.getElem?_eq_getElem inSecond))
  | set offPath =>
    cases keyedToo with
    | scalar bare => exact (bare _ rfl).elim
    | again onPath => exact (offPath onPath).elim
    | set => rfl

end

end Store

/-- Display and key of every value are found without a bound on the depth, however the
collections in the store hold each other.  The display is the one that elides a collection
exactly where it is one of its own ancestors. -/
theorem display_elides_ancestors_only
    {store : Store}
    {root : Value}
    (live : store.Live root) :
    (∀ text, store.Shows root false [] text ↔ text = store.display root) ∧
      (∀ text, store.Shows root true [] text ↔ text = store.displayNested root) ∧
      ∀ key, store.HasKey [] root key ↔ key = store.key root := by
  rw [store.display_eq_displayAlong, store.displayNested_eq_displayAlong, store.key_eq_keyAlong]
  refine ⟨Store.shows_iff_displayAlong live false, Store.shows_iff_displayAlong live true, ?_⟩
  intro key
  have keyed := Store.hasKey_keyAlong live (.start store)
  exact ⟨fun keyedToo => keyedToo.unique keyed, fun same => same ▸ keyed⟩

/-- An array that holds itself, a map with the array as a name and a set that holds the map,
and twice an array that is only shared. -/
def Store.tangled : Store :=
  let shared := .collection (.array 1)
  ⟨#[], #[[.collection (.array 0), .collection (.map 0), shared, shared], [.str "a"]],
    #[[⟨.again (.array 0), .collection (.array 0), .collection (.set 0)⟩]],
    #[[⟨.again (.map 0), .collection (.map 0)⟩]], #[], 0⟩

/-- The array, the map inside it and the set inside the map are elided where they are inside
themselves, and the shared array is shown twice. -/
theorem display_elides_ancestors_only_tangled :
    Store.tangled.Live (.collection (.array 0)) ∧
      Store.tangled.Shows (.collection (.array 0)) false []
        "[[...], \x7b[...]: \x7b\x7b...\x7d\x7d\x7d, [\"a\"], [\"a\"]]" ∧
      Store.tangled.HasKey [] (.collection (.set 0)) (.set [.again (.map 0)]) := by
  have closed : ∀ reference ∈ Store.tangled.references,
      ∀ member ∈ Store.tangled.members reference, Store.tangled.Present member := by
    decide
  have liveArray : Store.tangled.Live (.collection (.array 0)) :=
    Store.live_of_present closed (by decide)
  have liveSet : Store.tangled.Live (.collection (.set 0)) :=
    Store.live_of_present closed (by decide)
  refine ⟨liveArray, (display_elides_ancestors_only liveArray).1 _ |>.mpr ?_,
    (display_elides_ancestors_only liveSet).2.2 _ |>.mpr ?_⟩
  · decide +kernel
  · rfl

end Offside
