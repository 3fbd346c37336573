import Dispatch.Proofs.Scoping.EffectScopes

/-!
Slots that scoped effects write. The slot of a name lies in the scope, and a new name takes the
slot after all others; so slots that the scope keeps for parameters are never written.
-/

namespace Dispatch

namespace Scope

/-- A name that is found stands at its slot in the scope. -/
theorem getElem?_of_lookup? {scope : Scope} {name : String} {slot : Nat} {kind : SlotKind}
    (found : scope.lookup? name = some (slot, kind))
    : scope.entries[slot]? = some ⟨name, kind⟩ := by
  obtain ⟨⟨entry, position⟩, first, same⟩ := Option.map_eq_some_iff.mp found
  obtain ⟨rfl, rfl⟩ := Prod.mk.inj same
  have named := List.find?_some first
  have member := List.mem_reverse.mp (List.mem_of_find?_eq_some first)
  rw [List.mk_mem_zipIdx_iff_getElem?.mp member]
  simp only [decide_eq_true_eq] at named
  rw [← named]

theorem lt_size_of_lookup? {scope : Scope} {name : String} {slot : Nat} {kind : SlotKind}
    (found : scope.lookup? name = some (slot, kind))
    : slot < scope.size := by
  obtain ⟨inside, _⟩ := List.getElem?_eq_some_iff.mp (getElem?_of_lookup? found)
  exact inside

theorem size_push (scope : Scope) (name : String) (kind : SlotKind)
    : (scope.push name kind).size = scope.size + 1 := by
  simp only [push, size, List.length_append, List.length_singleton]

/-- The first slots of the scope hold ids of entity types. -/
def Reserves (count : Nat) (scope : Scope) : Prop :=
  ∀ slot < count, ∃ name entity, scope.entries[slot]? = some ⟨name, .entity entity⟩

/-- A scope that reserves slots has as many, since the last of them is one of its slots. -/
theorem Reserves.le_size {count : Nat} {scope : Scope} (reserves : scope.Reserves count)
    : count ≤ scope.size := by
  cases count with
  | zero => exact Nat.zero_le _
  | succ last =>
      obtain ⟨_, _, found⟩ := reserves last (Nat.lt_succ_self last)
      obtain ⟨inside, _⟩ := List.getElem?_eq_some_iff.mp found
      exact inside

/-- A scope reserves its slots with another name behind it. -/
theorem Reserves.push {count : Nat} {scope : Scope} (reserves : scope.Reserves count)
    (name : String) (kind : SlotKind)
    : (scope.push name kind).Reserves count := by
  intro slot low
  obtain ⟨other, entity, found⟩ := reserves slot low
  obtain ⟨inside, _⟩ := List.getElem?_eq_some_iff.mp found
  exact ⟨other, entity, by rw [Scope.push, List.getElem?_append_left inside, found]⟩

end Scope

namespace Update

mutual

/-- The slots that the effect may bind to another value or leave without one. -/
def writes : Update → List Nat
  | .assign .. | .insert .. | .remove .. | .replace .. => []
  | .assignLocal slot _ _ => [slot]
  | .bind slot _ _ body => slot :: writesAll body
  | .branch _ thenBody elseBody => writesAll thenBody ++ writesAll elseBody
  | .forEach slot _ _ _ body => slot :: writesAll body
  | .loop _ body => writesAll body

def writesAll : List Update → List Nat
  | [] => []
  | update :: rest => update.writes ++ writesAll rest

end

theorem mem_writesAll_iff {updates : List Update} {slot : Nat}
    : slot ∈ writesAll updates ↔ ∃ update ∈ updates, slot ∈ update.writes := by
  induction updates with
  | nil => simp [writesAll]
  | cons update rest ih => simp [writesAll, ih]

mutual

/-- A scoped effect writes no reserved slot, by induction on the effect. A slot that it writes is a
local, or lies behind the scope, and the reserved ones are of entities.
-/
theorem writes_of_scoped {count : Nat} {names : Names} (reserves : names.scope.Reserves count)
    (update : Update) (resolved : update.Scoped names)
    : ∀ slot ∈ update.writes, count ≤ slot := by
  cases update with
  | assign place name index value => simp [writes]
  | insert entity collection fields => simp [writes]
  | remove entity collection id => simp [writes]
  | replace entity collection id fields => simp [writes]
  | assignLocal slot name value =>
      rw [writes, List.forall_mem_singleton]
      refine Nat.le_of_not_lt fun low => ?_
      obtain ⟨_, _, reserved⟩ := reserves slot low
      rw [Scope.getElem?_of_lookup? resolved.1] at reserved
      cases reserved
  | bind slot name value body =>
      obtain ⟨rfl, _, bodyResolved⟩ := resolved
      rw [writes, List.forall_mem_cons]
      exact ⟨reserves.le_size,
        writesAll_of_scoped (reserves.push name .temporary) body bodyResolved⟩
  | branch condition thenBody elseBody =>
      obtain ⟨_, thenResolved, elseResolved⟩ := resolved
      rw [writes, List.forall_mem_append]
      exact ⟨writesAll_of_scoped reserves thenBody thenResolved,
        writesAll_of_scoped reserves elseBody elseResolved⟩
  | forEach slot name entity filter body =>
      obtain ⟨rfl, _, _, bodyResolved⟩ := resolved
      rw [writes, List.forall_mem_cons]
      exact ⟨reserves.le_size,
        writesAll_of_scoped (reserves.push name (.entity entity)) body bodyResolved⟩
  | loop condition body =>
      rw [writes]
      exact writesAll_of_scoped reserves body resolved.2

/-- Scoped effects write no reserved slot, by induction on the effects. The scope after an effect
reserves what the one before it does.
-/
theorem writesAll_of_scoped {count : Nat} {names : Names} (reserves : names.scope.Reserves count)
    (updates : List Update) (resolved : BodyScoped names updates)
    : ∀ slot ∈ writesAll updates, count ≤ slot := by
  cases updates with
  | nil => simp [writesAll]
  | cons update rest =>
      rw [writesAll, List.forall_mem_append]
      exact ⟨writes_of_scoped reserves update resolved.1,
        writesAll_of_scoped reserves rest resolved.2⟩

end

end Update

end Dispatch
