import Dispatch.Proofs.Evaluation.SlotDependence
import Dispatch.Proofs.Execution.ScopedRuns
import Dispatch.Proofs.Execution.WholeRuns
import Dispatch.Proofs.Layout.WellFormedState
import Dispatch.Proofs.Scoping.ScopeSlots

/-!
Running scoped effects never misses a slot, save for slots that had no value at the start: a name
that is pushed on the scope gets a value at once, and the end of a loop over ids takes away none but
its own. The state plays no part in this.
-/

namespace Dispatch

open Execution

/-- Every slot in force has a value, save for certain ones. -/
def Store.Binds (missing : Nat → Prop) (scope : Scope) (store : Store) : Prop :=
  ∀ slot < scope.size, ¬ missing slot → store.bindings.get? slot ≠ none

/-- The early stop misses no slot but certain ones. -/
def Halt.MissesOnly (missing : Nat → Prop) (halt : Halt) : Prop :=
  ∀ slot, halt = .failed (.unboundSlot slot) → missing slot

namespace Store.Binds

variable {missing : Nat → Prop} {scope : Scope} {store : Store}

/-- Binding a slot leaves every slot of the scope bound, be it the same slot or another. -/
theorem bind (binds : store.Binds missing scope) (slot : Nat) (value : Value)
    : (store.bind slot value).Binds missing scope := by
  intro other inside present
  rw [Store.bind, Bindings.get?_bind]
  split
  · nofun
  · exact binds other inside present

/-- Binding the next slot gives a value to the name that takes it, so all slots of the larger scope
are bound if those of the smaller one were.
-/
theorem push (binds : store.Binds missing scope) (name : String) (kind : SlotKind) (value : Value)
    : (store.bind scope.size value).Binds missing (scope.push name kind) := by
  intro other inside present
  rw [Store.bind, Bindings.get?_bind]
  split
  · nofun
  · rename_i different
    refine binds other ?_ present
    rw [Scope.size_push] at inside
    omega

/-- Unbinding the slot behind a scope leaves the slots of the scope bound, as it is none of them. -/
theorem unbind (binds : store.Binds missing scope)
    : (store.unbind scope.size).Binds missing scope := by
  intro other inside present
  rw [Store.unbind, Bindings.get?_unbind, if_neg (Nat.ne_of_lt inside)]
  exact binds other inside present

theorem shrink {small : Scope} (binds : store.Binds missing scope)
    (shorter : small.entries <+: scope.entries)
    : store.Binds missing small :=
  fun other inside present =>
    binds other (Nat.lt_of_lt_of_le inside shorter.length_le) present

end Store.Binds

/-- Ids bind as many slots as there are parameters in force, so with an id for each of them no slot
is missing.
-/
theorem Store.binds_ofIds {state : State} {ids : List Int} {scope : Scope}
    (enough : scope.size ≤ ids.length)
    : (Store.mk state (.ofIds ids)).Binds (fun _ => False) scope := by
  intro slot inside _
  rw [Bindings.get?_ofIds, List.getElem?_eq_getElem (Nat.lt_of_lt_of_le inside enough)]
  nofun

-----------------------------------------------------------------------------------------
-- Errors about slots
-----------------------------------------------------------------------------------------

/-- Checking a write never fails on a slot, by cases on what the check comes to: it looks at the
place, the index and the value, and at no bindings.
-/
theorem State.checkWrite_sparesSlots (schema : Schema) (state : State) (place : Place)
    (name : String) (index : Int) (value : Value)
    : FailsOnly EvalError.SparesSlots (state.checkWrite schema place name index value) := by
  rcases State.checkWrite_cases schema state place name index value
    with ⟨_, refused⟩ | ⟨_, _, refused⟩ | ⟨_, _, checked⟩
  · rw [refused]
    exact .error trivial
  · rw [refused]
    exact .error trivial
  · rw [checked]
    unfold State.checkTarget
    cases place with
    | const slot => exact .error trivial
    | var slot =>
        dsimp only
        split
        · split
          · exact .error trivial
          · exact .ok _
        · exact .error trivial
    | field collection slot constant =>
        dsimp only
        split
        · split
          · split
            · exact .error trivial
            · exact .ok _
          · exact .error trivial
        · exact .error trivial

/-- Checking for an item never fails on a slot: all that can be missing is the item. -/
theorem State.checkItem_sparesSlots (schema : Schema) (state : State) (collection : Nat) (id : Int)
    : FailsOnly EvalError.SparesSlots (state.checkItem schema collection id) := by
  unfold State.checkItem
  split
  · exact .ok _
  · exact .error trivial

-----------------------------------------------------------------------------------------
-- Scoped runs
-----------------------------------------------------------------------------------------

section

variable {schema : Schema} {vocabulary : Vocabulary} {missing : Nat → Prop} {scope : Scope}

theorem EvalError.missesOnly_of_sparesSlots {α : Type} {result : Except EvalError α}
    (fails : FailsOnly EvalError.SparesSlots result)
    : FailsOnly (fun error => (Halt.failed error).MissesOnly missing) result := by
  refine fails.mono fun error spares slot same => ?_
  obtain rfl := Halt.failed.inj same
  exact spares.elim

/-- Where every slot in force has a value, names fail in ways that miss no other slot.

A read of a slot is that of a name in scope, and its slot is bound unless it is one of those that
may be missing.
-/
theorem Store.Binds.permits {store : Store} (binds : store.Binds missing scope)
    : Expr.Permits schema ⟨vocabulary, scope⟩ store
        (fun error => (Halt.failed error).MissesOnly missing) where
  values _ ofValues slot same := by
    obtain rfl := Halt.failed.inj same
    exact (EvalError.sparesSlots_of_ofValues ofValues).elim
  slots name slot kind found unbound other same := by
    obtain rfl := EvalError.unboundSlot.inj (Halt.failed.inj same)
    refine Classical.byContradiction fun present => ?_
    exact binds slot (Scope.lt_size_of_lookup? found) present unbound
  reads place name index _ :=
    EvalError.missesOnly_of_sparesSlots (store.read_sparesSlots schema place name index)

/-- An effect that runs no others keeps every slot bound, by cases on the effect: of these effects
only the assignment to a local name writes a slot, and it gives it a value.
-/
theorem Update.binds_simple {update : Update} (limit : Nat)
    (resolved : update.Scoped ⟨vocabulary, scope⟩) (simple : update.IsSimple)
    : Meets (Store.Binds missing scope) (update.run schema limit)
        (fun _ => Store.Binds missing scope) (fun halt _ => halt.MissesOnly missing) := by
  have number {expr : Expr} (known : expr.Scoped ⟨vocabulary, scope⟩)
      : Meets (Store.Binds missing scope) (observe fun store => expr.evalInt schema store)
          (fun _ => Store.Binds missing scope) (fun halt _ => halt.MissesOnly missing) :=
    .look fun _ binds => Expr.evalInt_fails binds.permits known
  have anything {expr : Expr} (known : expr.Scoped ⟨vocabulary, scope⟩)
      : Meets (Store.Binds missing scope) (observe fun store => expr.eval schema store)
          (fun _ => Store.Binds missing scope) (fun halt _ => halt.MissesOnly missing) :=
    .look fun _ binds => Expr.eval_fails binds.permits expr known
  have item {collection : Nat} {fields : List Expr}
      (known : Expr.AllScoped ⟨vocabulary, scope⟩ fields)
      : Meets (Store.Binds missing scope)
          (observe fun store => store.newItem schema collection fields)
          (fun _ => Store.Binds missing scope) (fun halt _ => halt.MissesOnly missing) :=
    .look fun _ binds => Store.newItem_fails binds.permits known nofun nofun
  have changed {check : State → Except EvalError Unit} (next : State → State)
      (fails : ∀ state, FailsOnly EvalError.SparesSlots (check state))
      : Meets (Store.Binds missing scope) (change check next)
          (fun _ => Store.Binds missing scope) (fun halt _ => halt.MissesOnly missing) :=
    .change (fun store _ => EvalError.missesOnly_of_sparesSlots (fails store.state))
      fun _ binds _ => binds
  cases update with
  | assign place name index value =>
      obtain ⟨_, indexKnown, valueKnown⟩ := resolved
      rw [run]
      refine .bind (number indexKnown) fun position => .bind (anything valueKnown) fun found => ?_
      exact changed _ fun state => state.checkWrite_sparesSlots schema place name position found
  | assignLocal slot name value =>
      rw [run]
      exact .bind (anything resolved.2) fun found => .modify fun _ binds => binds.bind slot found
  | insert entity collection fields =>
      obtain ⟨_, _, fieldsKnown⟩ := resolved
      rw [run]
      refine .bind (item fieldsKnown) fun built => changed _ fun state => ?_
      unfold State.checkCollection
      split
      · exact .ok _
      · exact .error trivial
  | remove entity collection id =>
      rw [run]
      refine .bind (number resolved.2) fun found => ?_
      exact changed _ fun state => state.checkItem_sparesSlots schema collection found
  | replace entity collection id fields =>
      obtain ⟨_, idKnown, _, fieldsKnown⟩ := resolved
      rw [run]
      refine .bind (number idKnown) fun found => .bind (item fieldsKnown) fun built => ?_
      exact changed _ fun state => state.checkItem_sparesSlots schema collection found
  | bind | branch | forEach | loop => exact simple.elim

/-- Running scoped effects keeps every slot in force bound. Loops and bindings unbind the slot that
they took when they end, and that slot lies behind the scope in which they stand.
-/
theorem Update.keeps_binds (schema : Schema) (vocabulary : Vocabulary) (missing : Nat → Prop)
    : Update.Keeps schema vocabulary (Store.Binds missing)
        (fun halt _ => halt.MissesOnly missing) where
  simple limit resolved simple := Update.binds_simple limit resolved simple
  permits binds := binds.permits
  bind name kind value binds := binds.push name kind value
  unbind binds := binds.unbind
  shrink shorter binds := binds.shrink shorter
  endless _ := nofun

end

end Dispatch
