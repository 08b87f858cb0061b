import Offside.Proofs.Bindings.Frames
import Offside.Proofs.Evaluation.Effects

namespace Offside

/-!
# Trees of frames

Every frame but the first is made inside an earlier one, so the frames of a store form a tree.
A name is looked up in a frame, then in the frame in which that was made, and so on.  A
definition is seen from the frames below its own up to the first frame that binds the name
itself; an assignment is seen wherever the name means the same binding.  Nothing else changes,
and a step that is refused changes nothing.
-/

/-- The frames of a store, and for each frame the earlier one in which it was made. -/
structure FrameTree where
  store : Store
  parent : (frame : Nat) → Option (Fin frame)

/-- What is done in a frame: another one is made inside it, a name is bound in it, or a name is
assigned from it. -/
inductive FrameStep where
  | child (frame : Nat) (label : Text)
  | define (frame : Nat) (name : Text) (slot : Slot)
  | assign (frame : Nat) (name : Text) (value : Value)

/-- What a look at a binding gives. -/
def Slot.reading (name : Text) (slot : Slot) : Except RuntimeCause Value :=
  match slot.value with
  | some value => .ok value
  | none => .error (.unfinishedName name)

namespace FrameTree

variable {target other : Nat} {value : Value} {assigned label : Text}

/-- The tree of a single frame. -/
def single (frame : Frame) : FrameTree :=
  ⟨{ Store.empty with frames := #[frame] }, fun _ => none⟩

/-- How many frames there are. -/
def size (tree : FrameTree) : Nat :=
  tree.store.frames.size

/-- The binding of a name in a frame. -/
def slot? (tree : FrameTree) (frame : Nat) (name : Text) : Option Slot :=
  tree.store.slot? frame name

/-- The scope of a frame: the frame itself and those in which it was made, innermost first. -/
def scope (tree : FrameTree) (frame : Nat) : Scope :=
  frame ::
    match tree.parent frame with
    | some parent => tree.scope parent
    | none => []
termination_by frame
decreasing_by exact parent.isLt

/-- The value of a name in a frame. -/
def lookup (tree : FrameTree) (frame : Nat) (name : Text) : Except RuntimeCause Value :=
  tree.store.lookup (tree.scope frame) name

/-- The tree with one more frame, made inside another one. -/
def addChild (tree : FrameTree) (frame : Nat) (label : Text) : FrameTree where
  store := (tree.store.addFrame label).2
  parent child :=
    if new : child = tree.size ∧ frame < tree.size then some ⟨frame, new.1 ▸ new.2⟩
    else tree.parent child

/-- The tree with one frame changed. -/
def modify (tree : FrameTree) (target : Nat) (change : Frame → Frame) : FrameTree :=
  { tree with store := tree.store.modifyFrame target change }

/-- The tree after a step, unless the step is refused. -/
def perform (tree : FrameTree) : FrameStep → Except RuntimeCause FrameTree
  | .child frame label => .ok (tree.addChild frame label)
  | .define frame name slot =>
    (tree.store.define (tree.scope frame) name slot).map fun store => { tree with store }
  | .assign frame name value =>
    (tree.store.assign (tree.scope frame) name value).map fun store => { tree with store }

/-- How an action ends that does a step in the store of a tree: with the store after the step,
or, if the step is refused, with a failure for the same cause and the store as it was. -/
def ending (tree : FrameTree) (step : FrameStep) (span : Option Span) (depth : Nat) :
    Evaluation.Ending Unit :=
  match tree.perform step with
  | .ok later => .ok () ⟨later.store, depth⟩
  | .error cause => .error (.fault ⟨.runtime cause, span, none⟩) ⟨tree.store, depth⟩

/-- A frame is another one or one of those in which that was made. -/
inductive Above (tree : FrameTree) : (upper lower : Nat) → Prop where
  | self (frame : Nat) : Above tree frame frame
  | parent
      {upper lower : Nat} {parent : Fin lower} :
      tree.parent lower = some parent →
      Above tree upper parent →
      Above tree upper lower

/-- A look for a name from a frame comes as far as a place: this is above the frame, and no
frame before it binds the name. -/
structure Sees (tree : FrameTree) (frame : Nat) (name : Text) (place : Nat) : Prop where
  above : tree.Above place frame
  unbound : ∀ nearer, tree.Above nearer frame → tree.Above place nearer → nearer ≠ place →
    tree.slot? nearer name = none

/-- A name means, in a frame, the binding of it in a place: the nearest one. -/
structure Finds (tree : FrameTree) (frame : Nat) (name : Text) (place : Nat) (slot : Slot) :
    Prop where
  sees : tree.Sees frame name place
  bound : tree.slot? place name = some slot

namespace Above

variable {tree : FrameTree} {upper middle lower : Nat}

theorem le (above : tree.Above upper lower) : upper ≤ lower := by
  induction above with
  | self => exact Nat.le_refl _
  | @parent lower parent _ _ hypothesis =>
    exact Nat.le_trans hypothesis (Nat.le_of_lt parent.isLt)

theorem trans (first : tree.Above upper middle) (second : tree.Above middle lower) :
    tree.Above upper lower := by
  induction second with
  | self => exact first
  | parent isParent _ hypothesis => exact .parent isParent hypothesis

/-- No frame is made inside itself. -/
theorem antisymm (first : tree.Above upper lower) (second : tree.Above lower upper) :
    upper = lower :=
  Nat.le_antisymm first.le second.le

/-- Frames stay where they are when one of them changes. -/
@[simp] theorem modify_iff {change : Frame → Frame} :
    (tree.modify target change).Above upper lower ↔ tree.Above upper lower := by
  constructor
  · intro above
    induction above with
    | self => exact .self _
    | parent isParent _ hypothesis => exact .parent isParent hypothesis
  · intro above
    induction above with
    | self => exact .self _
    | parent isParent _ hypothesis => exact .parent isParent hypothesis

end Above

namespace Sees

variable {tree : FrameTree} {frame place : Nat} {name : Text}

/-- Nothing stands before the frame itself. -/
theorem self (tree : FrameTree) (frame : Nat) (name : Text) : tree.Sees frame name frame where
  above := .self frame
  unbound _ first second apart := (apart (first.antisymm second)).elim

/-- A look comes to another frame through the parent, if the frame does not bind the name. -/
theorem iff_of_ne (apart : place ≠ frame) :
    tree.Sees frame name place ↔
      tree.slot? frame name = none ∧
        ∃ parent, tree.parent frame = some parent ∧ tree.Sees parent name place := by
  constructor
  · rintro ⟨above, unbound⟩
    refine ⟨unbound frame (.self frame) above apart.symm, ?_⟩
    cases above with
    | self => exact (apart rfl).elim
    | @parent _ parent isParent above =>
      exact ⟨parent, isParent, above,
        fun nearer below => unbound nearer (.parent isParent below)⟩
  · rintro ⟨here, parent, isParent, above, unbound⟩
    refine ⟨.parent isParent above, fun nearer below onWay other => ?_⟩
    cases below with
    | self => exact here
    | parent isOther below =>
      cases isParent.symm.trans isOther
      exact unbound nearer below onWay other

end Sees

variable {tree later : FrameTree} {frame place : Nat} {name : Text} {slot : Slot}

theorem Finds.here_iff :
    tree.Finds frame name frame slot ↔ tree.slot? frame name = some slot :=
  ⟨Finds.bound, fun bound => ⟨.self tree frame name, bound⟩⟩

/-- The scope of a frame lists the frames above it. -/
theorem mem_scope_iff : place ∈ tree.scope frame ↔ tree.Above place frame := by
  induction frame using Nat.strongRecOn with
  | ind frame hypothesis =>
    rw [scope, List.mem_cons]
    constructor
    · rintro (rfl | member)
      · exact .self _
      · cases isParent : tree.parent frame with
        | none =>
          rw [isParent] at member
          cases member
        | some parent =>
          rw [isParent] at member
          exact .parent isParent ((hypothesis parent parent.isLt).mp member)
    · intro above
      cases above with
      | self => exact .inl rfl
      | @parent _ parent isParent above =>
        rw [isParent]
        exact .inr ((hypothesis parent parent.isLt).mpr above)

theorem resolve?_scope_eq_none_iff :
    tree.store.resolve? (tree.scope frame) name = none ↔
      ∀ place, tree.Above place frame → tree.slot? place name = none := by
  rw [Store.resolve?, List.findSome?_eq_none_iff]
  simp only [mem_scope_iff, Option.map_eq_none_iff]
  rfl

/-- The scope of a frame leads to the nearest binding. -/
theorem resolve?_scope :
    tree.store.resolve? (tree.scope frame) name = some (place, slot) ↔
      tree.Finds frame name place slot := by
  induction frame using Nat.strongRecOn with
  | ind frame hypothesis =>
    rw [scope, Store.resolve?, List.findSome?_cons]
    cases here : tree.slot? frame name with
    | some own =>
      rw [show tree.store.slot? frame name = some own from here]
      constructor
      · rintro same
        cases same
        exact Finds.here_iff.mpr here
      · rintro ⟨sees, bound⟩
        by_cases same : place = frame
        · subst same
          cases here.symm.trans bound
          rfl
        · have unbound := (Sees.iff_of_ne same).mp sees
          rw [here] at unbound
          cases unbound.1
    | none =>
      rw [show tree.store.slot? frame name = none from here]
      have apart (finds : tree.Finds frame name place slot) : place ≠ frame := by
        rintro rfl
        cases here.symm.trans finds.bound
      cases isParent : tree.parent frame with
      | none =>
        constructor
        · rintro ⟨⟩
        · intro finds
          obtain ⟨-, parent, isOther, -⟩ := (Sees.iff_of_ne (apart finds)).mp finds.sees
          cases isParent.symm.trans isOther
      | some parent =>
        refine (hypothesis parent parent.isLt).trans ?_
        constructor
        · intro finds
          have other : place ≠ frame := Nat.ne_of_lt
            (Nat.lt_of_le_of_lt finds.sees.above.le parent.isLt)
          exact ⟨(Sees.iff_of_ne other).mpr ⟨here, parent, isParent, finds.sees⟩, finds.bound⟩
        · intro finds
          obtain ⟨-, parent', isOther, sees⟩ := (Sees.iff_of_ne (apart finds)).mp finds.sees
          cases isParent.symm.trans isOther
          exact ⟨sees, finds.bound⟩

/-- A name that has a nearest binding is looked up there. -/
theorem Finds.lookup_eq (finds : tree.Finds frame name place slot) :
    tree.lookup frame name = slot.reading name := by
  unfold lookup Store.lookup
  rw [resolve?_scope.mpr finds]
  rfl

/-- Two trees in which a name means the same binding give it the same value. -/
theorem lookup_congr
    (same : ∀ place slot, later.Finds frame name place slot ↔ tree.Finds frame name place slot) :
    later.lookup frame name = tree.lookup frame name := by
  unfold lookup Store.lookup
  have resolved : later.store.resolve? (later.scope frame) name =
      tree.store.resolve? (tree.scope frame) name :=
    Option.ext fun (place, slot) =>
      resolve?_scope.trans ((same place slot).trans resolve?_scope.symm)
  rw [resolved]

/-! ## What a step does -/

theorem perform_define (tree : FrameTree) (frame : Nat) (name : Text) (slot : Slot) :
    tree.perform (.define frame name slot) =
      if (tree.slot? frame name).isSome then .error (.redefinition name)
      else .ok (tree.modify frame (·.bind name slot)) := by
  rw [perform, scope, Store.define, Store.bindingRefused?]
  split <;> rename_i refused <;> split at refused <;> cases refused
  · rw [if_pos (show (tree.slot? frame name).isSome = true by assumption)]
    rfl
  · rw [if_neg (show ¬ (tree.slot? frame name).isSome = true by assumption)]
    rfl

/-- A name is bound in a frame if it is new to it, and refused otherwise. -/
theorem perform_define_ok_iff :
    tree.perform (.define frame name slot) = .ok later ↔
      tree.slot? frame name = none ∧
        later = tree.modify frame (·.bind name slot) := by
  rw [perform_define]
  cases bound : tree.slot? frame name with
  | none => simpa using eq_comm
  | some old => simp

theorem perform_define_error_iff {cause : RuntimeCause} :
    tree.perform (.define frame name slot) = .error cause ↔
      cause = .redefinition name ∧ (tree.slot? frame name).isSome = true := by
  rw [perform_define]
  cases bound : tree.slot? frame name with
  | none => simp
  | some old => simpa using eq_comm

/-- The evaluator binds a name as a step of the tree does, and a refusal changes nothing. -/
theorem run_define
    (tree : FrameTree)
    (frame : Nat)
    (name : Text)
    (slot : Slot)
    (span : Option Span)
    (depth : Nat) :
    Action.define span (tree.scope frame) name slot ⟨tree.store, depth⟩ =
      tree.ending (.define frame name slot) span depth := by
  unfold Action.define ending
  rw [Action.store_bind_run]
  simp only [perform, Store.define]
  cases tree.store.bindingRefused? (tree.scope frame) name with
  | none => rfl
  | some cause => rfl

/-- The evaluator assigns to a name as a step of the tree does, and a refusal changes nothing. -/
theorem run_assign
    (tree : FrameTree)
    (frame : Nat)
    (name : Text)
    (value : Value)
    (span : Option Span)
    (depth : Nat) :
    Action.assign span (tree.scope frame) name value ⟨tree.store, depth⟩ =
      tree.ending (.assign frame name value) span depth := by
  unfold Action.assign ending
  rw [Action.store_bind_run]
  simp only [perform, Store.assign]
  cases tree.store.assignedFrame (tree.scope frame) name with
  | ok place => rfl
  | error cause => rfl

theorem perform_assign (tree : FrameTree) (frame : Nat) (name : Text) (value : Value) :
    tree.perform (.assign frame name value) =
      match tree.store.resolve? (tree.scope frame) name with
      | none => .error (.undefinedName name)
      | some (place, slot) =>
        if slot.mutable then
          .ok (tree.modify place (·.fill name value))
        else .error (.immutableBinding name) := by
  rw [perform, Store.assign, Store.assignedFrame]
  cases tree.store.resolve? (tree.scope frame) name with
  | none => rfl
  | some found =>
    obtain ⟨place, slot⟩ := found
    simp only
    cases slot.mutable <;> rfl

/-- A name is assigned in its nearest binding, if that is mutable. -/
theorem perform_assign_ok_iff {value : Value} :
    tree.perform (.assign frame name value) = .ok later ↔
      ∃ place slot, tree.Finds frame name place slot ∧ slot.mutable = true ∧
        later = tree.modify place (·.fill name value) := by
  simp only [← resolve?_scope]
  rw [perform_assign]
  constructor
  · intro performed
    split at performed
    · cases performed
    · rename_i place slot found
      split at performed
      · cases performed
        exact ⟨place, slot, found, ‹_›, rfl⟩
      · cases performed
  · rintro ⟨place, slot, found, mutable, rfl⟩
    simp only [found, mutable, if_true]

theorem perform_assign_error_iff {cause : RuntimeCause} :
    tree.perform (.assign frame name value) = .error cause ↔
      (cause = .undefinedName name ∧
        ∀ place, tree.Above place frame → tree.slot? place name = none) ∨
      cause = .immutableBinding name ∧
        ∃ place slot, tree.Finds frame name place slot ∧ slot.mutable = false := by
  rw [← resolve?_scope_eq_none_iff]
  simp only [← resolve?_scope]
  rw [perform_assign]
  constructor
  · intro refused
    split at refused
    · rename_i absent
      cases refused
      exact .inl ⟨rfl, absent⟩
    · rename_i place slot found
      split at refused
      · cases refused
      · cases refused
        exact .inr ⟨rfl, place, slot, found, eq_false_of_ne_true ‹_›⟩
  · rintro (⟨rfl, absent⟩ | ⟨rfl, place, slot, found, immutable⟩)
    · simp only [absent]
    · simp only [found, immutable, Bool.false_eq_true, if_false]

/-! ## What is seen of a step -/

/-- Only the frame that is changed binds its names otherwise. -/
theorem slot?_modifyFrame {change : Frame → Frame} :
    (tree.modify target change).slot? frame name =
      if target = frame then (tree.store.frame? frame).bind fun found => (change found).slot? name
      else tree.slot? frame name :=
  Store.slot?_of_modify rfl

/-- A binding in a frame changes the meaning of its own name in its own frame only. -/
theorem slot?_define
    {bound : Text}
    (inTree : target < tree.size)
    (fresh : tree.slot? target bound = none) :
    (tree.modify target (·.bind bound slot)).slot? frame name =
      if frame = target ∧ name = bound then some slot else tree.slot? frame name := by
  rw [slot?_modifyFrame]
  by_cases here : frame = target
  · subst here
    obtain ⟨found, isFrame⟩ : ∃ found, tree.store.frame? frame = some found :=
      ⟨_, Array.getElem?_eq_getElem inTree⟩
    have unbound : found.slot? bound = none := by
      simpa [slot?, Store.slot?, isFrame] using fresh
    by_cases same : name = bound
    · simp [isFrame, same, unbound]
    · simp [slot?, Store.slot?, isFrame, same]
  · rw [if_neg (Ne.symm here), if_neg (fun both => here both.1)]

theorem slot?_assign {value : Value} :
    (tree.modify target (·.fill assigned value)).slot? frame name =
      (tree.slot? frame name).map fun slot =>
        if frame = target ∧ name = assigned then { slot with value := some value } else slot := by
  rw [slot?_modifyFrame]
  by_cases here : frame = target
  · subst here
    unfold slot? Store.slot?
    cases tree.store.frame? frame with
    | none => simp
    | some found => simp
  · rw [if_neg (Ne.symm here)]
    simp [here]

/-- From where a look for its name comes to a new binding, it is seen. -/
theorem lookup_define_of_sees
    (inTree : target < tree.size)
    (fresh : tree.slot? target name = none)
    (sees : tree.Sees frame name target) :
    (tree.modify target (·.bind name slot)).lookup frame name = slot.reading name := by
  have finds : (tree.modify target (·.bind name slot)).Finds frame name target slot := by
    refine ⟨⟨Above.modify_iff.mpr sees.above, fun nearer below onWay apart => ?_⟩, ?_⟩
    · rw [slot?_define inTree fresh, if_neg (fun both => apart both.1)]
      exact sees.unbound nearer (Above.modify_iff.mp below) (Above.modify_iff.mp onWay) apart
    · rw [slot?_define inTree fresh, if_pos ⟨rfl, rfl⟩]
  exact finds.lookup_eq

/-- A name that every frame binds as before means the same binding. -/
theorem finds_modify_iff
    {change : Frame → Frame}
    (same : ∀ frame, (tree.modify target change).slot? frame name = tree.slot? frame name) :
    (tree.modify target change).Finds frame name place slot ↔
      tree.Finds frame name place slot := by
  constructor
  · rintro ⟨⟨above, unbound⟩, bound⟩
    simp only [Above.modify_iff, same] at above unbound bound
    exact ⟨⟨above, unbound⟩, bound⟩
  · rintro ⟨⟨above, unbound⟩, bound⟩
    refine ⟨⟨?_, ?_⟩, ?_⟩ <;> simpa only [Above.modify_iff, same]

/-- Where a look for its name does not come to a new binding, or for another name, nothing
changes. -/
theorem lookup_define_of_not_sees
    {bound : Text}
    (inTree : target < tree.size)
    (fresh : tree.slot? target bound = none)
    (unseen : ¬ (name = bound ∧ tree.Sees frame bound target)) :
    (tree.modify target (·.bind bound slot)).lookup frame name = tree.lookup frame name := by
  have slots (frame : Nat) : (tree.modify target (·.bind bound slot)).slot? frame name =
      if frame = target ∧ name = bound then some slot else tree.slot? frame name :=
    slot?_define inTree fresh
  refine lookup_congr fun place found => ?_
  by_cases same : name = bound
  case neg => exact finds_modify_iff fun frame => by rw [slots, if_neg (fun both => same both.2)]
  subst same
  replace unseen : ¬ tree.Sees frame name target := fun sees => unseen ⟨rfl, sees⟩
  simp only [and_true] at slots
  constructor
  · rintro ⟨⟨above, unbound⟩, bound⟩
    simp only [Above.modify_iff, slots] at above unbound bound
    have before (nearer : Nat) (below : tree.Above nearer frame)
        (onWay : tree.Above place nearer) (apart : nearer ≠ place) :
        tree.slot? nearer name = none := by
      have absent := unbound nearer below onWay apart
      split at absent
      · cases absent
      · exact absent
    have other : place ≠ target := by
      rintro rfl
      exact unseen ⟨above, before⟩
    rw [if_neg other] at bound
    exact ⟨⟨above, before⟩, bound⟩
  · rintro ⟨⟨above, unbound⟩, bound⟩
    have other : place ≠ target := by
      rintro rfl
      cases fresh.symm.trans bound
    refine ⟨⟨Above.modify_iff.mpr above, fun nearer below onWay apart => ?_⟩, ?_⟩
    · rw [Above.modify_iff] at below onWay
      rw [slots, if_neg]
      · exact unbound nearer below onWay apart
      · -- The new binding would be nearer than the place, and so it would be seen.
        rintro rfl
        refine unseen ⟨below, fun before first second ne => ?_⟩
        refine unbound before first (onWay.trans second) ?_
        rintro rfl
        exact ne (onWay.antisymm second)
    · rw [slots, if_neg other]
      exact bound

/-- An assignment leaves every binding where it is and changes the value of one. -/
theorem finds_assign_iff {value : Value} :
    (tree.modify target (·.fill assigned value)).Finds frame name place slot ↔
      ∃ old, tree.Finds frame name place old ∧
        slot = if place = target ∧ name = assigned then { old with value := some value }
          else old := by
  have sees : (tree.modify target (·.fill assigned value)).Sees frame name place ↔
      tree.Sees frame name place := by
    constructor
    · rintro ⟨above, unbound⟩
      simp only [Above.modify_iff, slot?_assign, Option.map_eq_none_iff] at above unbound
      exact ⟨above, unbound⟩
    · rintro ⟨above, unbound⟩
      refine ⟨?_, ?_⟩ <;>
        simpa only [Above.modify_iff, slot?_assign, Option.map_eq_none_iff]
  constructor
  · rintro ⟨seen, bound⟩
    rw [slot?_assign, Option.map_eq_some_iff] at bound
    obtain ⟨old, wasBound, rfl⟩ := bound
    exact ⟨old, ⟨sees.mp seen, wasBound⟩, rfl⟩
  · rintro ⟨old, ⟨seen, wasBound⟩, rfl⟩
    exact ⟨sees.mpr seen, by rw [slot?_assign, wasBound, Option.map_some]⟩

/-- An assignment is seen where the name means the binding that is assigned. -/
theorem lookup_assign_of_finds (finds : tree.Finds frame name place slot) :
    (tree.modify place (·.fill name value)).lookup frame name = .ok value := by
  have later : (tree.modify place (·.fill name value)).Finds frame name place
      { slot with value := some value } :=
    finds_assign_iff.mpr ⟨slot, finds, by rw [if_pos ⟨rfl, rfl⟩]⟩
  exact later.lookup_eq

/-- Where the name means another binding, or none, nothing changes. -/
theorem lookup_assign_of_not_finds
    (elsewhere : ¬ (name = assigned ∧ ∃ slot, tree.Finds frame assigned target slot)) :
    (tree.modify target (·.fill assigned value)).lookup frame name = tree.lookup frame name := by
  refine lookup_congr fun place found => finds_assign_iff.trans ?_
  have other {old : Slot} (finds : tree.Finds frame name place old) :
      ¬ (place = target ∧ name = assigned) := by
    rintro ⟨rfl, rfl⟩
    exact elsewhere ⟨rfl, old, finds⟩
  constructor
  · rintro ⟨old, finds, rfl⟩
    rwa [if_neg (other finds)]
  · intro finds
    exact ⟨found, finds, by rw [if_neg (other finds)]⟩

/-- The nearest binding of a name is one. -/
theorem Finds.place_eq
    {place' : Nat} {slot' : Slot}
    (first : tree.Finds frame name place slot)
    (second : tree.Finds frame name place' slot') :
    place' = place := by
  have same := (resolve?_scope.mpr second).symm.trans (resolve?_scope.mpr first)
  cases same
  rfl

/-! ## New frames -/

theorem addChild_parent {child : Nat} (old : child < tree.size) :
    (tree.addChild frame label).parent child = tree.parent child :=
  dif_neg fun new => Nat.ne_of_lt old new.1

theorem addChild_slot? {label : Text} :
    (tree.addChild frame label).store.slot? other name = tree.store.slot? other name :=
  Store.slot?_of_push rfl

theorem addChild_resolve? (scope : Scope) :
    (tree.addChild frame label).store.resolve? scope name = tree.store.resolve? scope name := by
  unfold Store.resolve?
  simp only [addChild_slot?]

/-- The scope of a frame does not change when another frame is made. -/
theorem addChild_scope (old : other < tree.size) :
    (tree.addChild frame label).scope other = tree.scope other := by
  induction other using Nat.strongRecOn with
  | ind other hypothesis =>
    rw [scope, scope, addChild_parent old]
    cases tree.parent other with
    | none => rfl
    | some parent =>
      simp only
      rw [hypothesis parent parent.isLt (Nat.lt_trans parent.isLt old)]

/-- The scope of a new frame is that of the frame in which it is made, inside itself. -/
theorem addChild_scope_new (inTree : frame < tree.size) :
    (tree.addChild frame label).scope tree.size = tree.size :: tree.scope frame := by
  have isParent : (tree.addChild frame label).parent tree.size = some ⟨frame, inTree⟩ :=
    dif_pos ⟨rfl, inTree⟩
  rw [scope, isParent]
  simp only [addChild_scope inTree]

theorem addChild_lookup (old : other < tree.size) :
    (tree.addChild frame label).lookup other name = tree.lookup other name := by
  unfold lookup Store.lookup
  rw [addChild_scope old, addChild_resolve?]

/-- In a new frame a name has the value that it has where the frame is made. -/
theorem addChild_lookup_new (inTree : frame < tree.size) :
    (tree.addChild frame label).lookup tree.size name = tree.lookup frame name := by
  have unbound : tree.store.slot? tree.size name = none := by
    unfold Store.slot? Store.frame? size
    rw [Array.getElem?_eq_none (Nat.le_refl _)]
    rfl
  unfold lookup Store.lookup
  rw [addChild_scope_new inTree, addChild_resolve?]
  unfold Store.resolve?
  rw [List.findSome?_cons, unbound]
  rfl

/-- A step changes what some names give in some frames, all to the same reading, and leaves all
others as they are. -/
def Changes (tree later : FrameTree) (changed : Nat → Text → Prop)
    (reading : Except RuntimeCause Value) : Prop :=
  ∀ frame name,
    (changed frame name → later.lookup frame name = reading) ∧
      (¬ changed frame name → later.lookup frame name = tree.lookup frame name)

end FrameTree

open FrameTree

/-- The laws of frames, for every frame of every tree.  A new frame shows what the frame shows in
which it is made.  A definition is seen exactly from where a look for the name comes to its
frame, an assignment exactly where the name means the same binding; no other look changes.  A
definition is refused if the frame binds the name, an assignment if no frame above binds it or
the nearest one that does binds it immutably.  The actions of the evaluator do these steps, and
where a step is refused they leave the store as it is. -/
theorem frame_steps_obey_laws
    (tree : FrameTree)
    (frame : Nat)
    (inTree : frame < tree.size)
    (name : Text) :
    (∀ label, ∃ later, tree.perform (.child frame label) = .ok later ∧
      ∀ query, later.lookup tree.size query = tree.lookup frame query ∧
        ∀ other < tree.size, later.lookup other query = tree.lookup other query) ∧
    (∀ slot later, tree.perform (.define frame name slot) = .ok later →
      tree.Changes later (fun other query => query = name ∧ tree.Sees other name frame)
        (slot.reading name)) ∧
    (∀ value later, tree.perform (.assign frame name value) = .ok later →
      tree.Changes later (fun other query => query = name ∧
        ∃ place slot, tree.Finds frame name place slot ∧ tree.Finds other name place slot)
        (.ok value)) ∧
    (∀ slot cause, tree.perform (.define frame name slot) = .error cause ↔
      cause = .redefinition name ∧ (tree.slot? frame name).isSome = true) ∧
    (∀ value cause, tree.perform (.assign frame name value) = .error cause ↔
      (cause = .undefinedName name ∧
        ∀ place, tree.Above place frame → tree.slot? place name = none) ∨
      cause = .immutableBinding name ∧
        ∃ place slot, tree.Finds frame name place slot ∧ slot.mutable = false) ∧
    (∀ slot span depth, Action.define span (tree.scope frame) name slot ⟨tree.store, depth⟩ =
      tree.ending (.define frame name slot) span depth) ∧
    (∀ value span depth, Action.assign span (tree.scope frame) name value ⟨tree.store, depth⟩ =
      tree.ending (.assign frame name value) span depth) ∧
    (RuntimeCause.undefinedName name).code = "E401" ∧
    (RuntimeCause.redefinition name).code = "E402" ∧
    (RuntimeCause.immutableBinding name).code = "E403" := by
  refine ⟨fun label => ?_, fun slot later performed => ?_, fun value later performed => ?_,
    fun slot cause => perform_define_error_iff, fun value cause => perform_assign_error_iff,
    run_define tree frame name, run_assign tree frame name, rfl, rfl, rfl⟩
  · exact ⟨_, rfl, fun query =>
      ⟨addChild_lookup_new inTree, fun other old => addChild_lookup old⟩⟩
  · obtain ⟨fresh, rfl⟩ := perform_define_ok_iff.mp performed
    refine fun other query => ⟨?_, lookup_define_of_not_sees inTree fresh⟩
    rintro ⟨rfl, sees⟩
    exact lookup_define_of_sees inTree fresh sees
  · obtain ⟨place, slot, finds, -, rfl⟩ := perform_assign_ok_iff.mp performed
    refine fun other query => ⟨?_, fun unchanged => lookup_assign_of_not_finds ?_⟩
    · rintro ⟨rfl, place', slot', nearest, seen⟩
      obtain rfl := finds.place_eq nearest
      exact lookup_assign_of_finds seen
    · rintro ⟨rfl, slot', seen⟩
      cases finds.bound.symm.trans seen.bound
      exact unchanged ⟨rfl, place, slot, finds, seen⟩

/-- Three frames inside each other: a name of the outermost is bound again in the middle one, and
the innermost sees it there. -/
theorem frame_steps_obey_laws_shadowed :
    let outer := FrameTree.single ⟨"block", [("x", ⟨some (.int 1), true⟩)]⟩
    let tree := (outer.addChild 0 "block").addChild 1 "block"
    1 < tree.size ∧ ∃ later, tree.perform (.define 1 "x" ⟨some (.int 2), false⟩) = .ok later ∧
      later.lookup 2 "x" = .ok (.int 2) ∧ later.lookup 0 "x" = tree.lookup 0 "x" := by
  intro outer tree
  have inTree : 1 < tree.size := by decide
  have performed : tree.perform (.define 1 "x" ⟨some (.int 2), false⟩) =
      .ok (tree.modify 1 (·.bind "x" ⟨some (.int 2), false⟩)) :=
    perform_define_ok_iff.mpr ⟨by decide, rfl⟩
  have laws := (frame_steps_obey_laws tree 1 inTree "x").2.1 _ _ performed
  have sees : tree.Sees 2 "x" 1 :=
    (Sees.iff_of_ne (by decide)).mpr ⟨by decide, 1, rfl, .self tree 1 "x"⟩
  refine ⟨inTree, _, performed, (laws 2 "x").1 ⟨rfl, sees⟩, (laws 0 "x").2 ?_⟩
  rintro ⟨-, unseen⟩
  exact absurd unseen.above.le (by decide)

end Offside
