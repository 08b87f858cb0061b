import Offside.Store.Scope

namespace Offside

/-!
# How frames change

A frame is opened empty.  After that it can only bind a name that is new to it, with a value
or without one, and give another value to a name that it binds as mutable.  A store evolves
by such changes; along them no binding is lost, none changes its flag and only mutable ones
change their value.
-/

namespace Frame

variable (frame : Frame) (name : Text)

@[simp] theorem slot?_bind (slot : Slot) (query : Text) :
    (frame.bind name slot).slot? query =
      (frame.slot? query).or (if query = name then some slot else none) := by
  unfold slot? bind
  rw [List.lookup_append, List.lookup_cons]
  by_cases same : query = name
  · simp [same]
  · simp [same, beq_false_of_ne same]

@[simp] theorem slot?_fill (value : Value) (query : Text) :
    (frame.fill name value).slot? query =
      (frame.slot? query).map fun slot =>
        if query = name then { slot with value := some value } else slot := by
  unfold slot? fill
  obtain ⟨label, slots⟩ := frame
  induction slots with
  | nil => rfl
  | cons first rest hypothesis =>
    obtain ⟨bound, slot⟩ := first
    by_cases here : query = bound
    · subst here
      by_cases same : query = name <;> simp [same]
    · have apart := beq_false_of_ne here
      by_cases same : bound = name
      · subst same
        simpa [List.lookup_cons, apart] using hypothesis
      · simpa [List.lookup_cons, apart, same] using hypothesis

@[simp] theorem names_bind (slot : Slot) :
    (frame.bind name slot).names = frame.names ++ [name] := by
  simp [names, bind]

@[simp] theorem names_fill (value : Value) :
    (frame.fill name value).names = frame.names := by
  unfold names fill
  rw [List.map_map]
  refine List.map_congr_left fun (bound, slot) _ => ?_
  simp only [Function.comp_apply]
  split <;> rfl

variable {frame name}

/-- A name that is new to a frame is none of its names. -/
theorem not_mem_names_of_slot?_eq_none (fresh : frame.slot? name = none) : name ∉ frame.names := by
  unfold slot? at fresh
  rw [List.lookup_eq_none_iff] at fresh
  intro member
  obtain ⟨⟨bound, slot⟩, present, rfl⟩ := List.mem_map.mp member
  simpa using fresh _ present

/-- A name that is bound first and then given its value is bound to that value. -/
theorem fill_bind_of_fresh (fresh : frame.slot? name = none) (mutable : Bool) (value : Value) :
    (frame.bind name ⟨none, mutable⟩).fill name value =
      frame.bind name ⟨some value, mutable⟩ := by
  unfold fill bind
  simp only [List.map_append, List.map_cons, List.map_nil, if_pos]
  congr 2
  -- No other entry has the name.
  refine (List.map_congr_left ?_).trans (List.map_id _)
  rintro ⟨bound, slot⟩ present
  refine if_neg ?_
  rintro rfl
  exact not_mem_names_of_slot?_eq_none fresh (List.mem_map_of_mem present)

end Frame

/-- A change of the frames of a store. -/
inductive FrameChange where
  | opened (label : Text)
  | bound (place : Nat) (name : Text) (mutable : Bool) (value : Option Value)
  | assigned (place : Nat) (name : Text) (value : Value)

/-- The change takes one store to another, as far as their frames go. -/
inductive FrameChange.Takes : FrameChange → (before after : Store) → Prop where
  | opened
      {before after : Store} {label : Text} :
      after.frames = before.frames.push ⟨label, []⟩ →
      Takes (.opened label) before after
  | bound
      {before after : Store} {place : Nat} {frame : Frame} {name : Text} {mutable : Bool}
      {value : Option Value} :
      before.frame? place = some frame →
      frame.slot? name = none →
      after.frames = before.frames.modify place (·.bind name ⟨value, mutable⟩) →
      Takes (.bound place name mutable value) before after
  | assigned
      {before after : Store} {place : Nat} {slot : Slot} {name : Text} {value : Value} :
      before.slot? place name = some slot →
      slot.mutable = true →
      after.frames = before.frames.modify place (·.fill name value) →
      Takes (.assigned place name value) before after

/-- Whether a change binds no name without a value. -/
def FrameChange.Complete : FrameChange → Prop
  | .bound _ _ _ none => False
  | _ => True

namespace Store

/-- The names that a frame binds, in the order of their definition. -/
def names (store : Store) (place : Nat) : List Text :=
  ((store.frame? place).map (·.names)).getD []

variable {before after : Store} {place : Nat} {name : Text} {slot : Slot}

/-- A frame that is opened binds nothing. -/
theorem slot?_of_push {label : Text} (pushed : after.frames = before.frames.push ⟨label, []⟩) :
    after.slot? place name = before.slot? place name := by
  unfold slot? frame?
  rw [pushed, Array.getElem?_push]
  split
  · rename_i new
    rw [new, Array.getElem?_eq_none (Nat.le_refl _)]
    rfl
  · rfl

/-- Only the frame that is changed binds its names otherwise. -/
theorem slot?_of_modify
    {target : Nat} {change : Frame → Frame}
    (modified : after.frames = before.frames.modify target change) :
    after.slot? place name =
      if target = place then (before.frame? place).bind fun frame => (change frame).slot? name
      else before.slot? place name := by
  unfold slot? frame?
  rw [modified, Array.getElem?_modify]
  split
  · cases before.frames[place]? <;> rfl
  · rfl

theorem names_of_push {label : Text} (pushed : after.frames = before.frames.push ⟨label, []⟩) :
    after.names place = before.names place := by
  unfold names frame?
  rw [pushed, Array.getElem?_push]
  split
  · rename_i new
    rw [new, Array.getElem?_eq_none (Nat.le_refl _)]
    rfl
  · rfl

theorem names_of_modify
    {target : Nat} {change : Frame → Frame}
    (modified : after.frames = before.frames.modify target change) :
    after.names place =
      if target = place then ((before.frame? place).map fun frame => (change frame).names).getD []
      else before.names place := by
  unfold names frame?
  rw [modified, Array.getElem?_modify]
  split
  · rw [Option.map_map]
    rfl
  · rfl

end Store

/-- What becomes of a binding: it stays as it is, or, if it is mutable, it has another value
that it was assigned. -/
def Slot.Turns (assigned : Value → Prop) (slot later : Slot) : Prop :=
  later = slot ∨
    slot.mutable = true ∧ ∃ value, assigned value ∧ later = ⟨some value, true⟩

namespace Slot.Turns

variable {assigned : Value → Prop} {slot later : Slot}

theorem mutable_eq (turns : slot.Turns assigned later) : later.mutable = slot.mutable := by
  rcases turns with rfl | ⟨mutable, value, _, rfl⟩
  · rfl
  · exact mutable.symm

theorem trans
    {last : Slot}
    (first : slot.Turns assigned later)
    (second : later.Turns assigned last) :
    slot.Turns assigned last := by
  rcases second with rfl | ⟨mutable, value, made, rfl⟩
  · exact first
  · exact .inr ⟨first.mutable_eq.symm.trans mutable, value, made, rfl⟩

theorem mono
    {assigned' : Value → Prop}
    (turns : slot.Turns assigned later)
    (more : ∀ value, assigned value → assigned' value) :
    slot.Turns assigned' later := by
  rcases turns with rfl | ⟨mutable, value, made, rfl⟩
  · exact .inl rfl
  · exact .inr ⟨mutable, value, more value made, rfl⟩

end Slot.Turns

namespace FrameChange.Takes

variable {change : FrameChange} {before after : Store} {place : Nat} {name : Text} {slot : Slot}

/-- No frame is lost. -/
theorem size_le (takes : change.Takes before after) :
    before.frames.size ≤ after.frames.size := by
  cases takes with
  | opened pushed => simp [pushed]
  | bound _ _ modified => simp [modified]
  | assigned _ _ modified => simp [modified]

/-- A binding stays, and changes only if the change assigns to it. -/
theorem turns (takes : change.Takes before after) (bound : before.slot? place name = some slot) :
    ∃ later, after.slot? place name = some later ∧
      slot.Turns (fun value => change = .assigned place name value) later := by
  obtain ⟨frame, found, here⟩ := Option.bind_eq_some_iff.mp bound
  cases takes with
  | opened pushed =>
    exact ⟨slot, (Store.slot?_of_push pushed).trans bound, .inl rfl⟩
  | bound _ _ modified =>
    refine ⟨slot, ?_, .inl rfl⟩
    rw [Store.slot?_of_modify modified]
    split
    · simp [found, here]
    · exact bound
  | @assigned _ _ target old other value foundOld mutable modified =>
    rw [Store.slot?_of_modify modified]
    by_cases sameFrame : target = place
    case neg => exact ⟨slot, by simp [sameFrame, bound], .inl rfl⟩
    by_cases sameName : name = other
    case neg => exact ⟨slot, by simp [sameFrame, found, here, sameName], .inl rfl⟩
    subst sameFrame sameName
    cases bound.symm.trans foundOld
    refine ⟨⟨some value, true⟩, ?_, .inr ⟨mutable, value, rfl, rfl⟩⟩
    simp [found, here, mutable]

/-- A binding that is new is the one that the change makes. -/
theorem made
    (takes : change.Takes before after)
    (bound : after.slot? place name = some slot)
    (absent : before.slot? place name = none) :
    change = .bound place name slot.mutable slot.value := by
  cases takes with
  | opened pushed =>
    rw [Store.slot?_of_push pushed, absent] at bound
    cases bound
  | @bound _ _ target frame fresh mutable value found _ modified =>
    rw [Store.slot?_of_modify modified] at bound
    by_cases sameFrame : target = place
    case neg =>
      rw [if_neg sameFrame, absent] at bound
      cases bound
    subst sameFrame
    have unbound : frame.slot? name = none := by simpa [Store.slot?, found] using absent
    by_cases sameName : name = fresh
    case neg => simp [found, unbound, sameName] at bound
    subst sameName
    obtain rfl : ⟨value, mutable⟩ = slot := by simpa [found, unbound] using bound
    rfl
  | @assigned _ _ target _ _ _ _ _ modified =>
    rw [Store.slot?_of_modify modified] at bound
    by_cases sameFrame : target = place
    case neg =>
      rw [if_neg sameFrame, absent] at bound
      cases bound
    rw [if_pos sameFrame] at bound
    obtain ⟨frame, found, filled⟩ := Option.bind_eq_some_iff.mp bound
    have unbound : frame.slot? name = none := by simpa [Store.slot?, found] using absent
    simp [unbound] at filled

/-- A frame gets no name but by a change that binds one in it. -/
theorem names_eq
    (takes : change.Takes before after)
    (elsewhere : ∀ name mutable value, change ≠ .bound place name mutable value) :
    after.names place = before.names place := by
  cases takes with
  | opened pushed => exact Store.names_of_push pushed
  | @bound _ _ target frame fresh mutable value found vacant modified =>
    rw [Store.names_of_modify modified, if_neg]
    rintro rfl
    exact elsewhere fresh mutable value rfl
  | assigned found mutable modified =>
    rw [Store.names_of_modify modified]
    simp [Store.names]

end FrameChange.Takes

/-- One store becomes another, as far as their frames go, by changes that have a cause. -/
inductive Store.Evolves (cause : FrameChange → Prop) (before : Store) : Store → Prop where
  | unchanged {after : Store} :
      after.frames = before.frames →
      Evolves cause before after
  | changed {between after : Store} {change : FrameChange} :
      Evolves cause before between →
      cause change →
      change.Takes between after →
      Evolves cause before after

namespace Store.Evolves

variable {cause : FrameChange → Prop} {before after : Store} {place : Nat} {name : Text}
  {slot : Slot}

theorem refl (cause : FrameChange → Prop) (store : Store) : store.Evolves cause store :=
  .unchanged rfl

theorem mono
    {cause' : FrameChange → Prop}
    (evolves : before.Evolves cause after)
    (more : ∀ change, cause change → cause' change) :
    before.Evolves cause' after := by
  induction evolves with
  | unchanged same => exact .unchanged same
  | changed _ caused takes hypothesis =>
    exact .changed hypothesis (more _ caused) takes

/-- A single change. -/
theorem once {change : FrameChange} (caused : cause change) (takes : change.Takes before after) :
    before.Evolves cause after :=
  .changed (.refl cause before) caused takes

/-- What is true of the frames of a store does not depend on the rest of it. -/
theorem congr
    {after' : Store}
    (evolves : before.Evolves cause after)
    (same : after'.frames = after.frames) :
    before.Evolves cause after' := by
  cases evolves with
  | unchanged unchanged => exact .unchanged (same.trans unchanged)
  | changed earlier caused takes =>
    refine .changed earlier caused ?_
    cases takes with
    | opened pushed => exact .opened (same.trans pushed)
    | bound found fresh modified => exact .bound found fresh (same.trans modified)
    | assigned found mutable modified => exact .assigned found mutable (same.trans modified)

theorem trans
    {last : Store}
    (first : before.Evolves cause after)
    (second : after.Evolves cause last) :
    before.Evolves cause last := by
  induction second with
  | unchanged same => exact first.congr same
  | changed _ caused takes hypothesis =>
    exact .changed hypothesis caused takes

/-- No frame is lost. -/
theorem size_le (evolves : before.Evolves cause after) :
    before.frames.size ≤ after.frames.size := by
  induction evolves with
  | unchanged same => exact Nat.le_of_eq (congrArg Array.size same.symm)
  | changed _ _ takes hypothesis => exact Nat.le_trans hypothesis takes.size_le

/-- A binding stays; it changes only if it is mutable, and by an assignment to it. -/
theorem turns (evolves : before.Evolves cause after) (bound : before.slot? place name = some slot) :
    ∃ later, after.slot? place name = some later ∧
      slot.Turns (fun value => cause (.assigned place name value)) later := by
  induction evolves with
  | unchanged same =>
    refine ⟨slot, ?_, .inl rfl⟩
    unfold Store.slot? Store.frame?
    rw [same]
    exact bound
  | changed _ caused takes hypothesis =>
    obtain ⟨middle, boundMiddle, first⟩ := hypothesis
    obtain ⟨later, boundLater, second⟩ := takes.turns boundMiddle
    refine ⟨later, boundLater, first.trans (second.mono ?_)⟩
    rintro value rfl
    exact caused

/-- A binding was there before, or some change bound it with the flag that it has. -/
theorem origin (evolves : before.Evolves cause after) (bound : after.slot? place name = some slot) :
    (∃ old, before.slot? place name = some old) ∨
      ∃ value, cause (.bound place name slot.mutable value) := by
  induction evolves generalizing slot with
  | unchanged same =>
    refine .inl ⟨slot, ?_⟩
    unfold Store.slot? Store.frame? at bound ⊢
    rwa [same] at bound
  | @changed between _ _ _ caused takes hypothesis =>
    cases earlier : between.slot? place name with
    | none =>
      exact .inr ⟨slot.value, takes.made bound earlier ▸ caused⟩
    | some middle =>
      obtain ⟨later, boundLater, turns⟩ := takes.turns earlier
      cases bound.symm.trans boundLater
      rw [turns.mutable_eq]
      exact hypothesis earlier

/-- A binding without a value was there before, without a value, or some change bound it
without one. -/
theorem unfinished
    (evolves : before.Evolves cause after)
    (bound : after.slot? place name = some slot)
    (noValue : slot.value = none) :
    before.slot? place name = some slot ∨ cause (.bound place name slot.mutable none) := by
  induction evolves with
  | unchanged same =>
    unfold Store.slot? Store.frame? at bound ⊢
    rw [same] at bound
    exact .inl bound
  | @changed between _ _ _ caused takes hypothesis =>
    cases earlier : between.slot? place name with
    | none =>
      have change := takes.made bound earlier
      rw [noValue] at change
      exact .inr (change ▸ caused)
    | some middle =>
      obtain ⟨later, boundLater, turns⟩ := takes.turns earlier
      cases bound.symm.trans boundLater
      rcases turns with rfl | ⟨_, value, _, rfl⟩
      · exact hypothesis earlier
      · cases noValue

/-- A frame in which nothing is bound keeps its names. -/
theorem names_eq
    (evolves : before.Evolves cause after)
    (elsewhere : ∀ name mutable value, ¬ cause (.bound place name mutable value)) :
    after.names place = before.names place := by
  induction evolves with
  | unchanged same =>
    unfold Store.names Store.frame?
    rw [same]
  | changed _ caused takes hypothesis =>
    refine (takes.names_eq ?_).trans hypothesis
    rintro name mutable value rfl
    exact elsewhere name mutable value caused

end Store.Evolves

/-- Whether every binding has a value. -/
def Store.Finished (store : Store) : Prop :=
  ∀ place name slot, store.slot? place name = some slot → slot.value.isSome = true

/-- Changes that bind names with values only leave no binding without a value. -/
theorem Store.Finished.evolves
    {cause : FrameChange → Prop} {before after : Store}
    (finished : before.Finished)
    (evolves : before.Evolves cause after)
    (complete : ∀ change, cause change → change.Complete) :
    after.Finished := by
  intro place name slot bound
  cases value : slot.value with
  | some _ => rfl
  | none =>
    rcases evolves.unfinished bound value with boundBefore | caused
    · have earlier := finished place name slot boundBefore
      rw [value] at earlier
      cases earlier
    · exact (complete _ caused).elim

end Offside
