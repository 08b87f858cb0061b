import Offside.Store.Display
import Offside.Store.Identity
import Offside.Store.Scope

namespace Offside

/-!
# Actions

An action reads and changes a machine and ends in a result or in a failure; the
changes made before a failure stay.
-/

/-- The store of a session and how many function bodies are being evaluated. -/
structure Machine where
  store : Store
  depth : Nat

/-- A step of an evaluation. -/
abbrev Action (α : Type) := EStateM Failure Machine α

namespace Action

/-- Fails for a cause at a place, if one is known. -/
def fail {α : Type} (span : Option Span) (cause : RuntimeCause) : Action α :=
  throw (.fault ⟨.runtime cause, span, none⟩)

/-- The result of a check, failing at a place. -/
def check {α : Type} (span : Option Span) : Except RuntimeCause α → Action α
  | .ok value => pure value
  | .error cause => fail span cause

/-- The current store. -/
def store : Action Store := do
  return (← get).store

/-- Replaces the store. -/
def setStore (store : Store) : Action Unit :=
  modify ({ · with store })

/-- Changes the store. -/
def change (update : Store → Store) : Action Unit :=
  modify fun ⟨store, depth⟩ => ⟨update store, depth⟩

/-- Adds something to the store and gives its place. -/
def add {α : Type} (extend : Store → α × Store) : Action α :=
  modifyGet fun ⟨store, depth⟩ =>
    let (place, extended) := extend store
    (place, ⟨extended, depth⟩)

/-- Binds a name in the innermost frame of a scope; the name must be new there. -/
def define (span : Option Span) (scope : Scope) (name : Text) (slot : Slot) : Action Unit := do
  match (← store).bindingRefused? scope name with
  | some cause => fail span cause
  | none => change (·.bind scope name slot)

/-- Assigns to the innermost binding of a name, which must be mutable. -/
def assign (span : Option Span) (scope : Scope) (name : Text) (value : Value) :
    Action Unit := do
  let frame ← check span ((← store).assignedFrame scope name)
  change (·.modifyFrame frame (·.fill name value))

/-- An action inside one more function body. -/
def deeper {α : Type} (body : Action α) : Action α := fun machine =>
  match body { machine with depth := machine.depth + 1 } with
  | .ok value after => .ok value { after with depth := after.depth - 1 }
  | .error failure after => .error failure { after with depth := after.depth - 1 }

end Action

end Offside
