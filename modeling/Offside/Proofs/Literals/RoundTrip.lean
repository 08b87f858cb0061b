import Offside.Proofs.Evaluation.Termination
import Offside.Proofs.Literals.Program
import Offside.Run.Session

namespace Offside

/-!
# Displays are read back

The display of a value that can be written down is a program of one expression, and running
it gives a copy of the value: a value that is equal to it and has the same display.
-/

variable {literal : Literal} {literals : List Literal} {levels : Nat}

namespace Store

/-- Every collection of the first store is a collection of the second, unchanged. -/
structure Extends (old new : Store) : Prop where
  arrays : ∀ {index : Nat} {items : List Value},
    old.arrays[index]? = some items → new.arrays[index]? = some items
  maps : ∀ {index : Nat} {entries : List MapEntry},
    old.maps[index]? = some entries → new.maps[index]? = some entries
  sets : ∀ {index : Nat} {elements : List SetEntry},
    old.sets[index]? = some elements → new.sets[index]? = some elements

namespace Extends

theorem refl (store : Store) : store.Extends store :=
  ⟨id, id, id⟩

theorem trans
    {first second third : Store}
    (left : first.Extends second)
    (right : second.Extends third) :
    first.Extends third :=
  ⟨right.arrays ∘ left.arrays, right.maps ∘ left.maps, right.sets ∘ left.sets⟩

end Extends

theorem getElem?_push_of_some
    {α : Type} {items : Array α} {index : Nat} {item : α}
    (found : items[index]? = some item)
    (last : α) :
    (items.push last)[index]? = some item := by
  have inside := (Array.getElem?_eq_some_iff.mp found).1
  rw [Array.getElem?_push, if_neg (Nat.ne_of_lt inside), found]

theorem extends_addArray (store : Store) (items : List Value) :
    store.Extends (store.addArray items).2 :=
  ⟨fun found => getElem?_push_of_some found items, id, id⟩

theorem extends_addMap (store : Store) (entries : List MapEntry) :
    store.Extends (store.addMap entries).2 :=
  ⟨id, fun found => getElem?_push_of_some found entries, id⟩

theorem extends_addSet (store : Store) (elements : List SetEntry) :
    store.Extends (store.addSet elements).2 :=
  ⟨id, id, fun found => getElem?_push_of_some found elements⟩

end Store

/-- A value denotes the same literal in a store with more collections. -/
theorem Denotes.extend
    {old new : Store} {value : Value}
    (denotes : Denotes old value literal)
    (more : old.Extends new) :
    Denotes new value literal := by
  induction denotes with
  | int => exact .int
  | str => exact .str
  | char => exact .char
  | bool => exact .bool
  | array found sizes _ hypothesis =>
    exact .array (more.arrays found) sizes hypothesis
  | map found sizes _ _ keys nameHypothesis valueHypothesis =>
    exact .map (more.maps found) sizes nameHypothesis valueHypothesis keys
  | set found sizes _ keys hypothesis =>
    exact .set (more.sets found) sizes hypothesis keys

/-- A set entry holds an element that denotes a literal, under the key of the literal. -/
def MemberDenotes (store : Store) (entry : SetEntry) (literal : Literal) : Prop :=
  Denotes store entry.element literal ∧ entry.key.same literal.key = true

/-- A map entry holds a name and a value that denote literals, under the key of the name. -/
def EntryDenotes (store : Store) (entry : MapEntry) (literal : Literal × Literal) : Prop :=
  (Denotes store entry.name literal.1 ∧ entry.key.same literal.1.key = true) ∧
    Denotes store entry.value literal.2

/-- Entries with the keys of some literals do not have the key of one that differs from all. -/
theorem Key.not_same_of_pairwise
    {α β : Type} {held : α → β → Prop} {entryKey : α → Key} {literalKey : β → Key}
    {known : List α} {earlier later : List β} {literal : β} {key : Key}
    (knownDenote : List.Forall₂ held known earlier)
    (keyed : ∀ entry other, held entry other → (entryKey entry).same (literalKey other) = true)
    (distinct : (earlier ++ literal :: later).Pairwise fun first second =>
      (literalKey first).same (literalKey second) = false)
    (isKey : key.same (literalKey literal) = true) :
    ∀ entry ∈ known, ¬ (entryKey entry).same key = true := by
  induction knownDenote with
  | nil => exact List.forall_mem_nil _
  | cons first _ hypothesis =>
    obtain ⟨different, distinct⟩ := List.pairwise_cons.mp distinct
    refine List.forall_mem_cons.mpr ⟨fun same => ?_, hypothesis distinct⟩
    have joined := Key.same_trans (Key.same_symm (keyed _ _ first)) (Key.same_trans same isKey)
    exact Bool.false_ne_true ((different literal (by simp)).symm.trans joined)

namespace Evaluation

variable {limit : Nat} {site : Site}

/-- In every machine, an expression has a value that denotes a literal, and evaluating it
adds collections only. -/
def Denoting (limit : Nat) (site : Site) (expr : Expr) (literal : Literal) : Prop :=
  ∀ machine, ∃ value after,
    Evaluates limit site (.visit expr) machine (.ok value after) ∧
      Denotes after.store value literal ∧ machine.store.Extends after.store

theorem exprs_denoting
    {exprs : List Expr}
    (each : List.Forall₂ (Denoting limit site) exprs literals)
    (machine : Machine) :
    ∃ values after,
      Evaluates limit site (.exprs exprs) machine (.ok values after) ∧
        List.Forall₂ (Denotes after.store) values literals ∧
        machine.store.Extends after.store := by
  induction each generalizing machine with
  | nil => exact ⟨[], machine, .noExprs, .nil, .refl _⟩
  | cons first _ hypothesis =>
    obtain ⟨value, between, evaluated, denotes, grown⟩ := first machine
    obtain ⟨values, after, others, denote, grownMore⟩ := hypothesis between
    exact ⟨value :: values, after, .exprs evaluated others,
      .cons (denotes.extend grownMore) denote, grown.trans grownMore⟩

theorem members_denoting
    {exprs : List Expr}
    (each : List.Forall₂ (Denoting limit site) exprs literals)
    (machine : Machine)
    {known : List SetEntry} {earlier : List Literal}
    (knownDenote : List.Forall₂ (MemberDenotes machine.store) known earlier)
    (distinct : (earlier ++ literals).Pairwise fun first second =>
      first.key.same second.key = false) :
    ∃ gathered after,
      Evaluates limit site (.members known exprs) machine (.ok gathered after) ∧
        List.Forall₂ (MemberDenotes after.store) gathered (earlier ++ literals) ∧
        machine.store.Extends after.store := by
  induction each generalizing machine known earlier with
  | nil =>
    rw [List.append_nil]
    exact ⟨known, machine, .noMembers, knownDenote, .refl _⟩
  | @cons expr literal exprs literals first _ hypothesis =>
    obtain ⟨value, between, evaluated, denotes, grown⟩ := first machine
    have entryDenotes : MemberDenotes between.store ⟨between.store.key value, value⟩ literal :=
      ⟨denotes, denotes.key_same⟩
    have fresh : known.any (·.key.same (between.store.key value)) = false := by
      rw [List.any_eq_false]
      exact Key.not_same_of_pairwise knownDenote (fun _ _ held => held.2) distinct
        denotes.key_same
    have adjoined : Store.adjoin known ⟨between.store.key value, value⟩ =
        known ++ [⟨between.store.key value, value⟩] := by
      rw [Store.adjoin, fresh, if_neg Bool.false_ne_true]
    have knownDenoteMore : List.Forall₂ (MemberDenotes between.store)
        (known ++ [⟨between.store.key value, value⟩]) (earlier ++ [literal]) :=
      List.rel_append (knownDenote.imp fun _ _ held => ⟨held.1.extend grown, held.2⟩)
        (.cons entryDenotes .nil)
    rw [List.append_cons] at distinct
    obtain ⟨gathered, after, others, denote, grownMore⟩ :=
      hypothesis between knownDenoteMore distinct
    refine ⟨gathered, after, .members evaluated ?_, ?_, grown.trans grownMore⟩
    · rwa [adjoined]
    · rwa [List.append_cons]

/-- The name and the value of a map entry have values that denote literals. -/
def EntryDenoting (limit : Nat) (site : Site) (entry : Entry) (literal : Literal × Literal) :
    Prop :=
  ∃ span name value, entry = .pair span name value ∧
    Denoting limit site name literal.1 ∧ Denoting limit site value literal.2

theorem entries_denoting
    {entries : List Entry} {literals : List (Literal × Literal)}
    (each : List.Forall₂ (EntryDenoting limit site) entries literals)
    (machine : Machine)
    {known : List MapEntry} {earlier : List (Literal × Literal)}
    (knownDenote : List.Forall₂ (EntryDenotes machine.store) known earlier)
    (distinct : (earlier ++ literals).Pairwise fun first second =>
      first.1.key.same second.1.key = false) :
    ∃ gathered after,
      Evaluates limit site (.entries known entries) machine (.ok gathered after) ∧
        List.Forall₂ (EntryDenotes after.store) gathered (earlier ++ literals) ∧
        machine.store.Extends after.store := by
  induction each generalizing machine known earlier with
  | nil =>
    rw [List.append_nil]
    exact ⟨known, machine, .noEntries, knownDenote, .refl _⟩
  | @cons entry literal entries literals first _ hypothesis =>
    obtain ⟨span, nameExpr, valueExpr, rfl, nameDenoting, valueDenoting⟩ := first
    obtain ⟨name, between, nameEvaluated, nameDenotes, grownName⟩ := nameDenoting machine
    obtain ⟨value, after, valueEvaluated, valueDenotes, grownValue⟩ := valueDenoting between
    have grown := grownName.trans grownValue
    have nameDenotesAfter := nameDenotes.extend grownValue
    have fresh : (Store.entryAt? known (after.store.key name)).isSome = false := by
      rw [Option.isSome_eq_false_iff, Option.isNone_iff_eq_none, Store.entryAt?,
        List.find?_eq_none]
      exact Key.not_same_of_pairwise knownDenote (fun _ _ held => held.1.2) distinct
        nameDenotesAfter.key_same
    have knownDenoteMore : List.Forall₂ (EntryDenotes after.store)
        (known ++ [⟨after.store.key name, name, value⟩]) (earlier ++ [literal]) :=
      List.rel_append
        (knownDenote.imp fun _ _ held =>
          ⟨⟨held.1.1.extend grown, held.1.2⟩, held.2.extend grown⟩)
        (.cons ⟨⟨nameDenotesAfter, nameDenotesAfter.key_same⟩, valueDenotes⟩ .nil)
    rw [List.append_cons] at distinct
    obtain ⟨gathered, final, others, denote, grownMore⟩ :=
      hypothesis after knownDenoteMore distinct
    refine ⟨gathered, final, .entries nameEvaluated valueEvaluated fresh others, ?_,
      grown.trans grownMore⟩
    rwa [List.append_cons]

end Evaluation

namespace Literal.Proper

theorem items (proper : (Literal.array literals).Proper levels) :
    ∀ literal ∈ literals, ∃ inner, literal.Proper inner ∧ inner + 6 = levels := by
  cases proper with
  | emptyArray => exact nofun
  | array each => exact fun literal member => ⟨_, each literal member, rfl⟩

end Literal.Proper

open Evaluation in
/-- An expression that spells a proper literal evaluates to a value that denotes it, where the
host stack has a third of the levels that reading the literal takes, and five for what is
innermost. -/
theorem Spells.denoting
    {expr : Expr}
    (spells : Spells expr literal)
    (proper : literal.Proper levels)
    (limit : Nat)
    (site : Site)
    (room : levels + 15 ≤ 3 * site.room) :
    Denoting limit site expr literal := by
  have enough {site : Site} {levels : Nat} (room : levels + 15 ≤ 3 * site.room) :
      5 ≤ site.room := by omega
  -- A part of a literal takes six levels less to read, and is two levels further down.
  have inside {site : Site} {levels : Nat} (room : levels + 6 + 15 ≤ 3 * site.room) :
      levels + 15 ≤ 3 * (site.inside 2).room := by
    show levels + 15 ≤ 3 * (site.room - 2)
    omega
  induction spells generalizing levels site with
  | int => exact fun machine => ⟨_, machine, .visit (enough room) .int, .int, .refl _⟩
  | str => exact fun machine => ⟨_, machine, .visit (enough room) .string, .str, .refl _⟩
  | char => exact fun machine => ⟨_, machine, .visit (enough room) .char, .char, .refl _⟩
  | bool => exact fun machine => ⟨_, machine, .visit (enough room) .bool, .bool, .refl _⟩
  | @array span exprs literals sizes _ hypothesis =>
    intro machine
    have each : List.Forall₂ (Denoting limit (site.inside 2)) exprs literals := by
      refine List.forall₂_iff_zip.mpr ⟨sizes, fun {expr literal} member => ?_⟩
      obtain ⟨inner, itemProper, rfl⟩ := proper.items literal (List.of_mem_zip member).2
      exact hypothesis _ member itemProper _ (inside room)
    obtain ⟨values, after, evaluated, denote, grown⟩ := exprs_denoting each machine
    have added := after.store.extends_addArray values
    have fits : 4 ≤ site.room := Nat.le_of_succ_le (enough room)
    refine ⟨_, _, .visit fits (.array evaluated), ?_, grown.trans added⟩
    obtain ⟨lengths, pairs⟩ := List.forall₂_iff_zip.mp denote
    exact .array Array.getElem?_push_size lengths fun pair member =>
      (pairs member).extend added
  | @map span entries literals sizes _ _ nameHypothesis valueHypothesis =>
    intro machine
    cases proper with
    | map _ names values distinct =>
      have each : List.Forall₂ (EntryDenoting limit (site.inside 2)) entries literals := by
        refine List.forall₂_iff_zip.mpr ⟨sizes, fun {entry literal} member => ?_⟩
        obtain ⟨entrySpan, name, value⟩ := entry
        have inLiterals := (List.of_mem_zip member).2
        exact ⟨entrySpan, name, value, rfl,
          nameHypothesis _ _ _ _ member (names literal inLiterals) _ (inside room),
          valueHypothesis _ _ _ _ member (values literal inLiterals) _ (inside room)⟩
      obtain ⟨gathered, after, evaluated, denote, grown⟩ :=
        entries_denoting each machine .nil distinct
      have added := after.store.extends_addMap gathered
      have fits : 4 ≤ site.room := Nat.le_of_succ_le (enough room)
      refine ⟨_, _, .visit fits (.map evaluated), ?_, grown.trans added⟩
      obtain ⟨lengths, pairs⟩ := List.forall₂_iff_zip.mp denote
      exact .map Array.getElem?_push_size lengths
        (fun pair member => (pairs member).1.1.extend added)
        (fun pair member => (pairs member).2.extend added)
        (fun pair member => (pairs member).1.2)
  | @set span exprs literals sizes _ hypothesis =>
    intro machine
    cases proper with
    | set _ elements distinct =>
      have each : List.Forall₂ (Denoting limit (site.inside 2)) exprs literals := by
        refine List.forall₂_iff_zip.mpr ⟨sizes, fun {expr literal} member => ?_⟩
        exact hypothesis _ member (elements literal (List.of_mem_zip member).2) _ (inside room)
      obtain ⟨gathered, after, evaluated, denote, grown⟩ :=
        members_denoting each machine .nil distinct
      have added := after.store.extends_addSet gathered
      have fits : 4 ≤ site.room := Nat.le_of_succ_le (enough room)
      refine ⟨_, _, .visit fits (.set evaluated), ?_, grown.trans added⟩
      obtain ⟨lengths, pairs⟩ := List.forall₂_iff_zip.mp denote
      exact .set Array.getElem?_push_size lengths
        (fun pair member => (pairs member).1.extend added)
        (fun pair member => (pairs member).2)

open Evaluation in
/-- Running the text of a literal gives a value that denotes the literal. -/
theorem Literal.Proper.run_text
    (proper : literal.Proper levels)
    (fits : levels ≤ nestingRoom)
    (settings : Settings)
    (starts : 1000 + 32 * settings.maxCallDepth ≤ mostStack)
    (machine : Machine) :
    ∃ copy after,
      Session.run settings literal.text machine = (.ok (some copy), after) ∧
        Denotes after.store copy literal ∧ machine.store.Extends after.store := by
  obtain ⟨program, _, expr, read, shape, spells⟩ := proper.ofSource_text fits settings.file
  let site := startSite settings.maxCallDepth Store.globalScope
  have room : levels + 15 ≤ 3 * (site.inside 1).room := by
    show levels + 15 ≤ 3 * (960 + 32 * settings.maxCallDepth - 1)
    have : levels ≤ 960 := fits
    omega
  obtain ⟨copy, after, evaluated, denotes, grown⟩ :=
    spells.denoting proper settings.maxCallDepth (site.inside 1) room machine
  refine ⟨copy, after, ?_, denotes, grown⟩
  have executed : execute settings.maxCallDepth Store.globalScope program.statements machine =
      .ok (some copy) after := by
    rw [shape, execute_of_starts starts]
    have roomForStmt : 1 ≤ site.room := by
      show 1 ≤ 960 + 32 * settings.maxCallDepth
      omega
    exact evaluates_iff_run.mp (.stmts (.visitStmt roomForStmt (.expression evaluated)) .noStmts)
  simp only [Session.run, read, Except.map, Session.executeRead, Session.outcome, executed,
    Session.withSource]

open Evaluation in
/-- The display of a value that can be written down, nested no deeper than a source may be,
is a program.  In every machine, running it gives a copy of the value: its key is the same,
and it has the same display.  Where the value itself is in the store of the machine, the
copy is equal to it. -/
theorem run_displayNested
    {store : Store}
    {levels : Nat}
    {value : Value}
    (writable : store.Writable levels value)
    (fits : levels ≤ nestingRoom)
    (settings : Settings)
    (starts : 1000 + 32 * settings.maxCallDepth ≤ mostStack)
    (machine : Machine) :
    ∃ copy after,
      Session.run settings (store.displayNested value) machine = (.ok (some copy), after) ∧
        (after.store.key copy).same (store.key value) = true ∧
        after.store.displayNested copy = store.displayNested value ∧
        (machine.store = store → after.store.equal copy value = true) := by
  obtain ⟨literal, proper, denotes⟩ := writable.denotes
  obtain ⟨copy, after, run, copyDenotes, grown⟩ :=
    proper.run_text fits settings starts machine
  refine ⟨copy, after, ?_, ?_, ?_, ?_⟩
  · rw [denotes.displayNested_eq, run]
  · exact Key.same_trans copyDenotes.key_same (Key.same_symm denotes.key_same)
  · rw [copyDenotes.displayNested_eq, denotes.displayNested_eq]
  · rintro rfl
    have valueDenotes := denotes.extend grown
    exact Store.equal_of_same_key
      (Key.same_trans copyDenotes.key_same (Key.same_symm valueDenotes.key_same))

namespace Store

/-- The least integer, a text and a character that need escapes, a surrogate, and an array. -/
def nestedItems : List Value :=
  [.int Scan.leastInteger, .str "say \"no\"\n\\", .char '\'', .char (.surrogate 0),
   .collection (.array 1)]

/-- A truth value and an integer, under their keys. -/
def nestedElements : List SetEntry :=
  [⟨.bool true, .bool true⟩, ⟨.int 1, .int 1⟩]

/-- A fresh store with a map from an array of these items to a set of these elements; the
array inside the first one is empty. -/
def nested : Store :=
  let key : Key :=
    .array [.int Scan.leastInteger, .str "say \"no\"\n\\", .char '\'', .char (.surrogate 0),
      .array []]
  { Store.initial with
    arrays := #[nestedItems, []]
    maps := #[[⟨key, .collection (.array 0), .collection (.set 0)⟩]]
    sets := #[nestedElements] }

theorem nested_writable : nested.Writable 12 (.collection (.map 0)) := by
  have items : ∀ item ∈ nestedItems, nested.Writable 0 item := by
    simp only [nestedItems, List.forall_mem_cons]
    exact ⟨.int (by decide) (by decide), .str, .char, .char, .emptyArray rfl, nofun⟩
  have elements : ∀ entry ∈ nestedElements, nested.Writable 0 entry.element := by
    simp only [nestedElements, List.forall_mem_cons]
    exact ⟨.bool, .int (by decide) (by decide), nofun⟩
  have name : nested.Writable 6 (.collection (.array 0)) := .array rfl items
  have value : nested.Writable 6 (.collection (.set 0)) :=
    .set rfl (List.cons_ne_nil _ _) elements (by decide +kernel) (by decide +kernel)
  refine .map rfl (List.cons_ne_nil _ _) ?_ ?_ ?_ (List.pairwise_singleton _ _)
  · exact List.forall_mem_singleton.mpr name
  · exact List.forall_mem_singleton.mpr value
  · decide +kernel

end Store

theorem run_displayNested_nested :
    Store.nested.Writable 12 (.collection (.map 0)) ∧ 12 ≤ nestingRoom ∧
      1000 + 32 * Settings.default.maxCallDepth ≤ Evaluation.mostStack ∧
      ∃ copy after,
        Session.run .default (Store.nested.displayNested (.collection (.map 0)))
          ⟨Store.nested, 0⟩ = (.ok (some copy), after) ∧
        after.store.displayNested copy = Store.nested.displayNested (.collection (.map 0)) ∧
        after.store.equal copy (.collection (.map 0)) = true := by
  refine ⟨Store.nested_writable, by decide, by decide, ?_⟩
  obtain ⟨copy, after, run, _, display, equal⟩ :=
    run_displayNested Store.nested_writable (by decide) .default (by decide) ⟨Store.nested, 0⟩
  exact ⟨copy, after, run, display, equal rfl⟩

end Offside
