import Dispatch.Proofs.Evaluation.StoreDependence
import Dispatch.Proofs.Execution.WholeRuns
import Dispatch.Proofs.Scoping.ScopeSlots

/-!
What running an effect leaves alone: every slot that the effect does not write, and every cell of
the state that it does not change.
-/

namespace Dispatch

open Execution

-----------------------------------------------------------------------------------------
-- Changes of one cell
-----------------------------------------------------------------------------------------

namespace State

/-- A change of a collection leaves every other cell alone, by cases on the cell. -/
theorem modifyCollection_sameAt (state : State) (collection : Nat) (change : Items → Items)
    {cell : Cell} (other : cell ≠ .items collection)
    : (state.modifyCollection collection change).SameAt state cell := by
  cases cell with
  | values slot => rfl
  | items found =>
      have different : collection ≠ found := by
        rintro rfl
        exact other rfl
      simp only [SameAt, modifyCollection, List.getElem?_modify_ne _ _ different]

/-- Writing to a place leaves every other cell alone, by cases on the place; a constant place has no
cell, as nothing is written there.
-/
theorem write_sameAt (state : State) (place : Place) (index : Int) (value : Value) {cell : Cell}
    (other : cell ∉ place.cell?)
    : (state.write place index value).SameAt state cell := by
  cases place with
  | const slot => exact sameAt_rfl
  | field collection slot constant =>
      have different : cell ≠ .items collection := by
        rintro rfl
        exact other rfl
      exact modifyCollection_sameAt state collection _ different
  | var slot =>
      unfold write
      dsimp only
      split
      · cases cell with
        | items collection => rfl
        | values found =>
            have different : slot ≠ found := by
              rintro rfl
              exact other rfl
            simp only [SameAt, List.getElem?_modify_ne _ _ different]
      · exact sameAt_rfl

end State

namespace Update

mutual

/-- The cells of the state that the effect may change. -/
def changes : Update → List Cell
  | .assign place _ _ _ => place.cell?.toList
  | .assignLocal .. => []
  | .insert _ collection _ | .remove _ collection _ | .replace _ collection _ _ =>
      [.items collection]
  | .bind _ _ _ body | .forEach _ _ _ _ body | .loop _ body => changesAll body
  | .branch _ thenBody elseBody => changesAll thenBody ++ changesAll elseBody

def changesAll : List Update → List Cell
  | [] => []
  | update :: rest => update.changes ++ changesAll rest

end

theorem mem_changesAll_iff {updates : List Update} {cell : Cell}
    : cell ∈ changesAll updates ↔ ∃ update ∈ updates, cell ∈ update.changes := by
  induction updates with
  | nil => simp [changesAll]
  | cons update rest ih => simp [changesAll, ih]

end Update

-----------------------------------------------------------------------------------------
-- Conditions that effects leave alone
-----------------------------------------------------------------------------------------

/-- Looking at the store leaves every condition alone, and how it fails does not matter. -/
theorem Execution.Meets.glance {α : Type} {inv : Store → Prop} (look : Store → Except EvalError α)
    : Meets inv (Execution.observe look) (fun _ => inv) (fun _ _ => True) :=
  .look fun _ _ _ _ => trivial

/-- A condition on stores that survives new values of certain slots and new contents of certain
cells.
-/
structure Store.Survives (slots : List Nat) (cells : List Cell) (inv : Store → Prop) : Prop where
  bind : ∀ slot ∈ slots, ∀ store value, inv store → inv (store.bind slot value)
  unbind : ∀ slot ∈ slots, ∀ store, inv store → inv (store.unbind slot)
  change
    : ∀ (store : Store) (next : State),
        (∀ cell, cell ∉ cells → next.SameAt store.state cell)
        → inv store
        → inv { store with state := next }

namespace Store.Survives

variable {slots : List Nat} {cells : List Cell} {inv : Store → Prop}

/-- A condition that survives more slots and cells survives fewer. -/
theorem mono {fewerSlots : List Nat} {fewerCells : List Cell} (survives : Survives slots cells inv)
    (subslots : ∀ slot ∈ fewerSlots, slot ∈ slots) (subcells : ∀ cell ∈ fewerCells, cell ∈ cells)
    : Survives fewerSlots fewerCells inv where
  bind slot member := survives.bind slot (subslots slot member)
  unbind slot member := survives.unbind slot (subslots slot member)
  change store next same :=
    survives.change store next fun cell outside =>
      same cell fun inside => outside (subcells cell inside)

/-- A change of the cells leaves the condition alone that survives them, as the cells that are
spared are the same in the next state.
-/
theorem checked (survives : Survives slots cells inv) (check : State → Except EvalError Unit)
    {next : State → State} (spared : ∀ state cell, cell ∉ cells → (next state).SameAt state cell)
    : Meets inv (Execution.change check next) (fun _ => inv) (fun _ _ => True) :=
  .change (fun _ _ _ _ => trivial) fun store kept _ =>
    survives.change store _ (spared store.state) kept

end Store.Survives

namespace Update

variable {schema : Schema} {inv : Store → Prop}

mutual

/-- An effect leaves a condition alone that survives what the effect writes and changes, by
induction on the effect.

This is the frame rule: what an effect does not mention is not looked at, so that any condition on
the rest passes through it.
-/
theorem run_spares (limit : Nat) (update : Update)
    (survives : Store.Survives update.writes update.changes inv)
    : Meets inv (update.run schema limit) (fun _ => inv) (fun _ _ => True) := by
  have collected {collection : Nat} (same : update.changes = [.items collection])
      (check : State → Except EvalError Unit) (change : Items → Items)
      : Meets inv (Execution.change check fun state => state.modifyCollection collection change)
          (fun _ => inv) (fun _ _ => True) := by
    refine survives.checked check fun state cell outside => ?_
    rw [same, List.mem_singleton] at outside
    exact state.modifyCollection_sameAt collection change outside
  cases update with
  | assign place name index value =>
      rw [run]
      refine .bind (.glance _) fun position => .bind (.glance _) fun found => ?_
      refine survives.checked _ fun state cell outside => ?_
      rw [changes, Option.mem_toList] at outside
      exact state.write_sameAt place position found outside
  | assignLocal slot name value =>
      rw [run]
      refine .bind (.glance _) fun found => .modify fun store kept => ?_
      exact survives.bind slot (by simp [writes]) store found kept
  | insert entity collection fields =>
      rw [run]
      exact .bind (.glance _) fun item => collected rfl _ _
  | remove entity collection id =>
      rw [run]
      exact .bind (.glance _) fun found => collected rfl _ _
  | replace entity collection id fields =>
      rw [run]
      exact .bind (.glance _) fun found => .bind (.glance _) fun item => collected rfl _ _
  | bind slot name value body =>
      have inner : Store.Survives (writesAll body) (changesAll body) inv :=
        survives.mono (by simp +contextual [writes]) (by simp [changes])
      rw [run]
      refine .bind (.glance _) fun found => ?_
      refine .modify_bind (fun store kept => ?_) (runAll_spares limit body inner)
      exact survives.bind slot (by simp [writes]) store found kept
  | branch condition thenBody elseBody =>
      rw [run]
      refine .bind (.glance _) fun holds => ?_
      split
      · exact runAll_spares limit thenBody
          (survives.mono (by simp +contextual [writes]) (by simp +contextual [changes]))
      · exact runAll_spares limit elseBody
          (survives.mono (by simp +contextual [writes]) (by simp +contextual [changes]))
  | forEach slot name entity filter body =>
      have written : slot ∈ writes (.forEach slot name entity filter body) := by simp [writes]
      have inner : Store.Survives (writesAll body) (changesAll body) inv :=
        survives.mono (by simp +contextual [writes]) (by simp [changes])
      rw [run]
      refine .get_bind fun seen => ?_
      have looped
          : Meets inv
              (forIds schema slot entity
                (Execution.observe fun store => Expr.passes schema store filter)
                (runAll schema limit body) (seen.state.ids schema entity))
              (fun _ => inv) (fun _ _ => True) :=
        .forIds (fun store id kept => survives.bind slot written store (.int id) kept) (.glance _)
          (runAll_spares limit body inner) (fun _ kept => kept) _
      refine .bind (looped.weaken (fun _ kept => kept.2) fun _ _ kept => kept) fun _ => ?_
      exact .modify fun store kept => survives.unbind slot written store kept
  | loop condition body =>
      have inner : Store.Survives (writesAll body) (changesAll body) inv :=
        survives.mono (by simp [writes]) (by simp [changes])
      rw [run]
      exact .whileHolds (.glance _) (runAll_spares limit body inner) (fun _ _ => trivial) limit

/-- Effects leave a condition alone that survives what they write and change, by induction on the
effects.
-/
theorem runAll_spares (limit : Nat) (updates : List Update)
    (survives : Store.Survives (writesAll updates) (changesAll updates) inv)
    : Meets inv (runAll schema limit updates) (fun _ => inv) (fun _ _ => True) := by
  cases updates with
  | nil => exact .pure fun _ kept => kept
  | cons update rest =>
      have first : Store.Survives update.writes update.changes inv :=
        survives.mono (by simp +contextual [writesAll]) (by simp +contextual [changesAll])
      have others : Store.Survives (writesAll rest) (changesAll rest) inv :=
        survives.mono (by simp +contextual [writesAll]) (by simp +contextual [changesAll])
      rw [runAll]
      exact .bind (run_spares limit update first) fun _ => runAll_spares limit rest others

end

end Update

-----------------------------------------------------------------------------------------
-- Slots and cells that stay as they are
-----------------------------------------------------------------------------------------

/-- A slot of the store holds a value, or none. -/
def Store.Has (slot : Nat) (held : Option Value) (store : Store) : Prop :=
  store.bindings.get? slot = held

/-- What a slot holds survives new values of other slots. -/
theorem Store.has_survives {slot : Nat} {slots : List Nat} (cells : List Cell)
    (held : Option Value) (spared : slot ∉ slots)
    : Survives slots cells (Has slot held) where
  bind other member store value has := by
    have different : slot ≠ other := fun same => spared (same ▸ member)
    rw [Has, Store.bind, Bindings.get?_bind, if_neg different]
    exact has
  unbind other member store has := by
    have different : slot ≠ other := fun same => spared (same ▸ member)
    rw [Has, Store.unbind, Bindings.get?_unbind, if_neg different]
    exact has
  change _ _ _ has := has

theorem Store.sameAt_survives {cell : Cell} (slots : List Nat) {cells : List Cell} (state : State)
    (spared : cell ∉ cells)
    : Survives slots cells (fun store => store.state.SameAt state cell) where
  bind _ _ _ _ same := same
  unbind _ _ _ same := same
  change _ _ unchanged same := (unchanged cell spared).trans same

/-- Effects leave every slot alone that none of them writes, by the frame rule for what the slot
holds.
-/
theorem Update.runAll_keeps {schema : Schema} {slot : Nat} {held : Option Value} (limit : Nat)
    (updates : List Update) (spared : slot ∉ writesAll updates)
    : Meets (Store.Has slot held) (runAll schema limit updates) (fun _ => Store.Has slot held)
        (fun _ _ => True) :=
  runAll_spares limit updates (Store.has_survives _ held spared)

/-- The cells that running a cost may change. -/
def Cost.changes (cost : Cost) : List Cell := Update.changesAll cost.updates

/-- Effects and a cost leave every cell alone that they do not change, by the frame rule for the
content of the cell.
-/
theorem sameAt_of_runWithCost {schema : Schema} {limit : Nat} {effects : List Update} {cost : Cost}
    {state next : State} {bindings : Bindings} {value : Int} {cell : Cell}
    (spared : cell ∉ Update.changesAll effects ++ cost.changes)
    (ran : (runWithCost schema limit effects cost).finish state bindings = (next, .ok value))
    : next.SameAt state cell := by
  rw [List.mem_append, not_or] at spared
  have each
      : ∀ update ∈ effects,
          Meets (fun store => store.state.SameAt state cell) (update.run schema limit)
            (fun _ store => store.state.SameAt state cell) (fun _ _ => True) := by
    intro update member
    refine Update.run_spares limit update (Store.sameAt_survives _ state fun changed => ?_)
    exact spared.1 (Update.mem_changesAll_iff.mpr ⟨update, member, changed⟩)
  have last
      : Meets (fun store => store.state.SameAt state cell) (cost.run schema limit)
          (fun _ store => store.state.SameAt state cell) (fun _ _ => True) :=
    .bind (Update.runAll_spares limit _ (Store.sameAt_survives _ state spared.2)) fun _ => .glance _
  obtain ⟨_, same⟩ := (Meets.runWithCost each last).post_of_finish State.sameAt_rfl ran
  exact same

end Dispatch
