import Offside.Fault
import Offside.Store.Basic
import Offside.Text.CodePoint
import Offside.Text.Quoted

namespace Offside

/-!
# Names and scopes

A name means the innermost binding of it in a scope.  A frame binds a name once; a
binding made with `let` keeps its value.
-/

namespace Frame

/-- The binding of a name in a frame. -/
def slot? (frame : Frame) (name : Text) : Option Slot :=
  frame.slots.lookup name

/-- The names of a frame, in the order of their definition. -/
def names (frame : Frame) : List Text :=
  frame.slots.map (·.1)

/-- Adds a binding at the end. -/
def bind (frame : Frame) (name : Text) (slot : Slot) : Frame :=
  { frame with slots := frame.slots ++ [(name, slot)] }

/-- Gives a bound name a value. -/
def fill (frame : Frame) (name : Text) (value : Value) : Frame :=
  { frame with
    slots := frame.slots.map fun (bound, slot) =>
      if bound = name then (bound, { slot with value := some value }) else (bound, slot) }

/-- A frame in a dump: its label and its names in ascending order. -/
def dumped (frame : Frame) : Text :=
  let names := (Text.sorted frame.names).map Text.dumped
  "Environment(" ++ Text.dumped frame.label ++ ", [" ++ Text.join ", " names ++ "])"

end Frame

namespace Store

/-- A frame of the store. -/
def frame? (store : Store) (index : Nat) : Option Frame :=
  store.frames[index]?

/-- Adds an empty frame. -/
def addFrame (store : Store) (label : Text) : Nat × Store :=
  (store.frames.size, { store with frames := store.frames.push ⟨label, []⟩ })

/-- The binding of a name in a frame. -/
def slot? (store : Store) (frame : Nat) (name : Text) : Option Slot :=
  (store.frame? frame).bind (·.slot? name)

/-- The innermost binding of a name in a scope, with its frame. -/
def resolve? (store : Store) (scope : Scope) (name : Text) : Option (Nat × Slot) :=
  scope.findSome? fun frame => (store.slot? frame name).map fun slot => (frame, slot)

/-- The value of a name in a scope. -/
def lookup (store : Store) (scope : Scope) (name : Text) : Except RuntimeCause Value :=
  match store.resolve? scope name with
  | none => .error (.undefinedName name)
  | some (_, slot) =>
      match slot.value with
      | some value => .ok value
      | none => .error (.unfinishedName name)

/-- Changes one frame. -/
def modifyFrame (store : Store) (frame : Nat) (change : Frame → Frame) : Store :=
  { store with frames := store.frames.modify frame change }

/-- Why a name cannot be bound in the innermost frame of a scope: it has to be new
there. -/
def bindingRefused? (store : Store) (scope : Scope) (name : Text) : Option RuntimeCause :=
  match scope with
  | [] => none
  | frame :: _ =>
      if (store.slot? frame name).isSome then some (.redefinition name) else none

/-- Binds a new name in the innermost frame of a scope. -/
def bind (store : Store) (scope : Scope) (name : Text) (slot : Slot) : Store :=
  match scope with
  | [] => store
  | frame :: _ => store.modifyFrame frame (·.bind name slot)

/-- Binds a name in the innermost frame of a scope; the name must be new there. -/
def define (store : Store) (scope : Scope) (name : Text) (slot : Slot) :
    Except RuntimeCause Store :=
  match store.bindingRefused? scope name with
  | some cause => .error cause
  | none => .ok (store.bind scope name slot)

/-- Gives a value to a name that the innermost frame of a scope binds. -/
def fill (store : Store) (scope : Scope) (name : Text) (value : Value) : Store :=
  match scope with
  | [] => store
  | frame :: _ => store.modifyFrame frame (·.fill name value)

/-- The frame of the innermost binding of a name, which must be mutable. -/
def assignedFrame (store : Store) (scope : Scope) (name : Text) : Except RuntimeCause Nat :=
  match store.resolve? scope name with
  | none => .error (.undefinedName name)
  | some (frame, slot) =>
      if slot.mutable then .ok frame else .error (.immutableBinding name)

/-- Assigns to the innermost binding of a name, which must be mutable. -/
def assign (store : Store) (scope : Scope) (name : Text) (value : Value) :
    Except RuntimeCause Store := do
  let frame ← store.assignedFrame scope name
  return store.modifyFrame frame (·.fill name value)

/-- The frame of the builtins. -/
def builtinFrame : Nat :=
  0

/-- The global frame. -/
def globalFrame : Nat :=
  1

/-- The scope of a session: the global frame inside the frame of the builtins. -/
def globalScope : Scope :=
  [globalFrame, builtinFrame]

/-- The store of a fresh session. -/
def initial : Store :=
  let slots := Builtin.all.map fun function =>
    (Text.ofString function.name, (⟨some (.builtin function), false⟩ : Slot))
  { empty with frames := #[⟨"builtins", slots⟩, ⟨"global", []⟩] }

end Store

end Offside
