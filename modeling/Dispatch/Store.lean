import Dispatch.Schema

/-!
What expressions read and effects change: the state, and the values of the bound slots.
-/

namespace Dispatch

/-- The values of slots; a slot without a value is not bound. -/
structure Bindings where
  slots : List (Option Value)
deriving DecidableEq

namespace Bindings

/-- The bindings in which no slot is bound. -/
def empty : Bindings := ⟨[]⟩

/-- The bindings of consecutive slots to numbers. -/
def ofIds (ids : List Int) : Bindings := ⟨ids.map fun id => some (.int id)⟩

def get? (bindings : Bindings) (slot : Nat) : Option Value := bindings.slots[slot]?.join

def isBound (bindings : Bindings) (slot : Nat) : Bool := (bindings.get? slot).isSome

/-- The slots with one put to a value or none, among which it may not be yet. -/
def put (slot : Nat) (value : Option Value) : List (Option Value) → List (Option Value) :=
  fun slots => (slots ++ List.replicate (slot + 1 - slots.length) none).set slot value

/-- The bindings with a slot bound to a value. -/
def bind (bindings : Bindings) (slot : Nat) (value : Value) : Bindings :=
  ⟨put slot (some value) bindings.slots⟩

/-- The bindings with a slot not bound. -/
def unbind (bindings : Bindings) (slot : Nat) : Bindings := ⟨bindings.slots.set slot none⟩

end Bindings

structure Store where
  state : State
  bindings : Bindings
deriving DecidableEq

namespace Store

/-- The store with a slot bound to a value. -/
def bind (store : Store) (slot : Nat) (value : Value) : Store :=
  { store with bindings := store.bindings.bind slot value }

/-- The store with a slot not bound. -/
def unbind (store : Store) (slot : Nat) : Store :=
  { store with bindings := store.bindings.unbind slot }

end Store

end Dispatch
