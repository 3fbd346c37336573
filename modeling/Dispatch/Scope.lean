import Dispatch.Vocabulary

/-!
Parameters and locals in force at a line. The position of an entry is its slot, and a name denotes
its innermost entry.
-/

namespace Dispatch

/-- What a slot holds: an id of an entity type, or a value named on the way. -/
inductive SlotKind where
  | entity (index : Nat)
  | temporary
deriving DecidableEq

structure ScopeEntry where
  name : String
  kind : SlotKind
deriving DecidableEq

/-- The named slots in force, outermost first. -/
structure Scope where
  entries : List ScopeEntry
deriving DecidableEq

namespace Scope

def empty : Scope := ⟨[]⟩

/-- The number of slots, which is also the slot of the next entry. -/
def size (scope : Scope) : Nat := scope.entries.length

def push (scope : Scope) (name : String) (kind : SlotKind) : Scope :=
  ⟨scope.entries ++ [⟨name, kind⟩]⟩

/-- The innermost slot with the given name, and what it holds. -/
def lookup? (scope : Scope) (name : String) : Option (Nat × SlotKind) :=
  (scope.entries.zipIdx.reverse.find? (·.1.name = name)).map fun (entry, slot) =>
    (slot, entry.kind)

def contains (scope : Scope) (name : String) : Bool := (scope.lookup? name).isSome

end Scope

/-- The names that a line may use. -/
structure Names where
  vocabulary : Vocabulary
  scope : Scope
deriving DecidableEq

def Names.push (names : Names) (name : String) (kind : SlotKind) : Names :=
  { names with scope := names.scope.push name kind }

end Dispatch
