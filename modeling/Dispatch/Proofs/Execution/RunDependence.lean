import Dispatch.Proofs.Execution.PairedRuns
import Dispatch.Proofs.Execution.RunFrame

/-!
What running an effect depends on: the slots that it mentions without binding them itself, and the
cells of the state that it reads or changes. From two stores that agree on these it runs alike, and
the stores still agree afterwards, also on the slots that it left bound.
-/

namespace Dispatch

open Execution

-----------------------------------------------------------------------------------------
-- Slots and cells that effects look at
-----------------------------------------------------------------------------------------

namespace Update

mutual

/-- The slots whose values an effect takes over from before it. -/
def free : Update → List Nat
  | .assign _ _ index value => index.mentions ++ value.mentions
  | .assignLocal _ _ value => value.mentions
  | .insert _ _ fields => Expr.mentionsAll fields
  | .remove _ _ id => id.mentions
  | .replace _ _ id fields => id.mentions ++ Expr.mentionsAll fields
  | .bind slot _ value body => value.mentions ++ (freeAll body).filter (· ≠ slot)
  | .branch condition thenBody elseBody =>
      condition.mentions ++ (freeAll thenBody ++ freeAll elseBody)
  | .forEach slot _ _ filter body =>
      (Expr.mentionsAll filter.toList ++ freeAll body).filter (· ≠ slot)
  | .loop condition body => condition.mentions ++ freeAll body

def freeAll : List Update → List Nat
  | [] => []
  | update :: rest => update.free ++ freeAll rest

end

mutual

/-- The slots that an effect leaves bound for what follows its block. -/
def binds : Update → List Nat
  | .bind slot _ _ body => slot :: bindsAll body
  | _ => []

def bindsAll : List Update → List Nat
  | [] => []
  | update :: rest => update.binds ++ bindsAll rest

end

mutual

/-- The cells that the expressions of an effect read, and those of the entity types over whose ids
it loops.
-/
def reads (schema : Schema) : Update → List Cell
  | .assign _ _ index value => index.reads schema ++ value.reads schema
  | .assignLocal _ _ value => value.reads schema
  | .insert _ _ fields => Expr.readsAll schema fields
  | .remove _ _ id => id.reads schema
  | .replace _ _ id fields => id.reads schema ++ Expr.readsAll schema fields
  | .bind _ _ value body => value.reads schema ++ readsAll schema body
  | .branch condition thenBody elseBody =>
      condition.reads schema ++ (readsAll schema thenBody ++ readsAll schema elseBody)
  | .forEach _ _ entity filter body =>
      (schema.cell? entity).toList
        ++ (Expr.readsAll schema filter.toList ++ readsAll schema body)
  | .loop condition body => condition.reads schema ++ readsAll schema body

def readsAll (schema : Schema) : List Update → List Cell
  | [] => []
  | update :: rest => update.reads schema ++ readsAll schema rest

end

end Update

-----------------------------------------------------------------------------------------
-- Changes in stores that agree
-----------------------------------------------------------------------------------------

namespace Store.Agree

variable {schema : Schema} {slots : Set Nat} {cells : Set Cell} {left right : Store}

/-- Binding a slot to one value makes the stores agree on it too. -/
theorem bind (agree : Agree slots cells left right) (slot : Nat) (value : Value)
    : Agree (slots ∪ {slot}) cells (left.bind slot value) (right.bind slot value) where
  slots other member := by
    simp only [Store.bind, Bindings.get?_bind]
    split
    · rfl
    · rename_i different
      exact agree.slots other (member.resolve_right different)
  cells := agree.cells

/-- Unbinding a slot leaves stores that agree on slots in agreement, be it one of these or not. -/
theorem unbind (agree : Agree slots cells left right) (slot : Nat)
    : Agree slots cells (left.unbind slot) (right.unbind slot) where
  slots other member := by
    simp only [Store.unbind, Bindings.get?_unbind]
    split
    · rfl
    · exact agree.slots other member
  cells := agree.cells

/-- Stores that agree on a cell still do when states with the same contents there are put in, and
they agree on the slots that they agreed on before.
-/
theorem change (agree : Agree slots cells left right) {leftNext rightNext : State}
    (same
      : ∀ cell, left.state.SameAt right.state cell → leftNext.SameAt rightNext cell)
    : Agree slots cells { left with state := leftNext } { right with state := rightNext } where
  slots := agree.slots
  cells cell member := same cell (agree.cells cell member)

theorem shrink {moreSlots : Set Nat} (agree : Agree moreSlots cells left right)
    (subslots : slots ⊆ moreSlots)
    : Agree slots cells left right :=
  agree.mono subslots (Set.Subset.refl cells)

variable {expr : Expr}

/-- An expression has one number in stores that agree on the slots and the cells that it reads, or
fails there with one error.
-/
theorem evalInt (agree : Agree slots cells left right)
    (mentioned : ∀ slot ∈ expr.mentions, slot ∈ slots)
    (read : ∀ cell ∈ expr.reads schema, cell ∈ cells)
    : expr.evalInt schema left = expr.evalInt schema right := by
  rw [Expr.evalInt, Expr.evalInt, Expr.eval_agree agree expr mentioned read]

/-- A condition has one truth value in stores that agree on the slots and the cells that it reads,
or fails there with one error.
-/
theorem evalBool (agree : Agree slots cells left right)
    (mentioned : ∀ slot ∈ expr.mentions, slot ∈ slots)
    (read : ∀ cell ∈ expr.reads schema, cell ∈ cells)
    : expr.evalBool schema left = expr.evalBool schema right := by
  rw [Expr.evalBool, Expr.evalBool, Expr.eval_agree agree expr mentioned read]

/-- A new item of given fields is the same in stores that agree on what the fields read. -/
theorem newItem {fields : List Expr} (agree : Agree slots cells left right)
    (mentioned : ∀ slot ∈ Expr.mentionsAll fields, slot ∈ slots)
    (read : ∀ cell ∈ Expr.readsAll schema fields, cell ∈ cells) (collection : Nat)
    : left.newItem schema collection fields = right.newItem schema collection fields := by
  simp only [Store.newItem, Expr.evalAll_agree agree fields mentioned read]

/-- A filter lets an item pass in both of two stores that agree on what it reads, or in neither;
where there is no filter, there is nothing to read.
-/
theorem passes {filter : Option Expr} (agree : Agree slots cells left right)
    (mentioned : ∀ slot ∈ Expr.mentionsAll filter.toList, slot ∈ slots)
    (read : ∀ cell ∈ Expr.readsAll schema filter.toList, cell ∈ cells)
    : Expr.passes schema left filter = Expr.passes schema right filter := by
  cases filter with
  | none => rfl
  | some condition =>
      simp only [Option.toList_some, Expr.mentionsAll, Expr.readsAll, List.append_nil]
        at mentioned read
      exact agree.evalBool mentioned read

end Store.Agree

namespace State

variable {left right : State}

/-- A change of a collection that depends on its contents alone leaves two states the same at a cell
if they were.
-/
theorem modifyCollection_agree (collection : Nat) (change : Items → Items) {cell : Cell}
    (same : left.SameAt right cell)
    : (left.modifyCollection collection change).SameAt (right.modifyCollection collection change)
        cell := by
  cases cell with
  | values slot => exact same
  | items found =>
      simp only [SameAt] at same
      simp only [SameAt, modifyCollection, List.getElem?_modify, same]

/-- Writing to a place leaves two states the same at a cell if they were, by cases on the place:
what is written does not depend on the state.
-/
theorem write_agree (place : Place) (index : Int) (value : Value) {cell : Cell}
    (same : left.SameAt right cell)
    : (left.write place index value).SameAt (right.write place index value) cell := by
  cases place with
  | const slot => exact same
  | field collection slot constant => exact modifyCollection_agree collection _ same
  | var slot =>
      unfold write
      dsimp only
      split
      · cases cell with
        | items collection => exact same
        | values found =>
            simp only [SameAt] at same
            simp only [SameAt, List.getElem?_modify, same]
      · exact same

/-- A write is allowed in both of two states that agree on the cell of the place, or refused in both
for the same reason.
-/
theorem checkWrite_agree {schema : Schema} {place : Place}
    (same : ∀ cell ∈ place.cell?, left.SameAt right cell) (name : String) (index : Int)
    (value : Value)
    : left.checkWrite schema place name index value
      = right.checkWrite schema place name index value := by
  cases place with
  | const slot => rfl
  | var slot =>
      have found : left.SameAt right (.values slot) := same _ rfl
      simp only [SameAt] at found
      simp only [checkWrite, found]
  | field collection slot constant =>
      have found : left.SameAt right (.items collection) := same _ rfl
      simp only [SameAt] at found
      simp only [checkWrite, found]

/-- An item is live in both of two states that agree on its collection, or in neither. -/
theorem checkItem_agree {schema : Schema} {collection : Nat}
    (same : left.SameAt right (.items collection)) (id : Int)
    : left.checkItem schema collection id = right.checkItem schema collection id := by
  simp only [SameAt] at same
  simp only [checkItem, same]

/-- A collection exists in both of two states or in neither where they agree on it. -/
theorem checkCollection_agree {schema : Schema} {collection : Nat}
    (same : left.SameAt right (.items collection))
    : left.checkCollection schema collection = right.checkCollection schema collection := by
  simp only [SameAt] at same
  have exist : collection < left.collections.length ↔ collection < right.collections.length := by
    rw [← not_iff_not, Nat.not_lt, Nat.not_lt, ← List.getElem?_eq_none_iff,
      ← List.getElem?_eq_none_iff, same]
  simp only [checkCollection, exist]

end State

-----------------------------------------------------------------------------------------
-- Runs from stores that agree
-----------------------------------------------------------------------------------------

namespace Update

variable {schema : Schema} {cells : Set Cell}

/-- Slots that are known except for one are known where that one is known too. -/
theorem known_of_filter {slots : Set Nat} {used : List Nat} {slot : Nat}
    (known : ∀ other ∈ used.filter (· ≠ slot), other ∈ slots)
    : ∀ other ∈ used, other ∈ slots ∪ {slot} := by
  intro other member
  by_cases same : other = slot
  · exact Or.inr same
  · exact Or.inl (known other (List.mem_filter.mpr ⟨member, decide_eq_true same⟩))

/-- A checked change of the items of a collection runs alike from stores that agree on them. -/
theorem alike_modifyCollection {slots : Set Nat} {collection : Nat}
    (present : Cell.items collection ∈ cells)
    {check : State → Except EvalError Unit}
    (same
      : ∀ {left right : State}, left.SameAt right (.items collection) → check left = check right)
    (next : Items → Items)
    : Alike (Store.Agree slots cells)
        (Execution.change check fun state => state.modifyCollection collection next)
        (Store.Agree slots cells) :=
  .change (fun _ _ agree => same (agree.cells _ present)) fun _ _ agree =>
    agree.change fun _ alike => State.modifyCollection_agree collection next alike

/-- An effect that runs no others runs alike from stores that agree on its free slots and on the
cells that it reads or changes, by cases on the effect.
-/
theorem simple_alike {slots : Set Nat} (limit : Nat) {update : Update} (simple : update.IsSimple)
    (known : ∀ slot ∈ update.free, slot ∈ slots)
    (read : ∀ cell ∈ update.reads schema, cell ∈ cells)
    (changed : ∀ cell ∈ update.changes, cell ∈ cells)
    : Alike (Store.Agree slots cells) (update.run schema limit) (Store.Agree slots cells) := by
  cases update with
  | assign place name index value =>
      simp only [free, reads, changes, List.forall_mem_append, Option.mem_toList]
        at known read changed
      rw [run]
      refine .bind (.observe fun left right agree => agree.evalInt known.1 read.1) fun index => ?_
      refine .bind (.observe fun left right agree =>
        Expr.eval_agree agree value known.2 read.2) fun found => ?_
      refine .change (fun left right agree => ?_) fun left right agree => ?_
      · exact State.checkWrite_agree (fun cell member => agree.cells cell (changed cell member)) ..
      · exact agree.change fun cell same => State.write_agree place index found same
  | assignLocal slot name value =>
      rw [run]
      refine .bind (.observe fun left right agree =>
        Expr.eval_agree agree value known read) fun found => ?_
      exact .modify fun left right agree =>
        (agree.bind slot found).shrink Set.subset_union_left
  | insert entity collection fields =>
      have present := changed (.items collection) (by simp [changes])
      rw [run]
      refine .bind (.observe fun left right agree => agree.newItem known read collection)
        fun item => ?_
      exact alike_modifyCollection present State.checkCollection_agree (·.insert item)
  | remove entity collection id =>
      have present := changed (.items collection) (by simp [changes])
      rw [run]
      refine .bind (.observe fun left right agree => agree.evalInt known read) fun found => ?_
      exact alike_modifyCollection present (State.checkItem_agree · found) (·.remove found)
  | replace entity collection id fields =>
      have present := changed (.items collection) (by simp [changes])
      simp only [free, reads, List.forall_mem_append] at known read
      rw [run]
      refine .bind (.observe fun left right agree => agree.evalInt known.1 read.1) fun found => ?_
      refine .bind (.observe fun left right agree =>
        agree.newItem known.2 read.2 collection) fun item => ?_
      exact alike_modifyCollection present (State.checkItem_agree · found) (·.replace found item)
  | bind | branch | forEach | loop => exact simple.elim

mutual

/-- An effect runs alike from stores that agree on its free slots and on the cells that it reads or
changes, and they then agree on the slots that it leaves bound too; by induction on the effect.

Agreement on cells that are changed and not read is needed as well: the change of an item keeps the
others, so that the collection after it depends on the one before.
-/
theorem run_alike {slots : Set Nat} (limit : Nat) (update : Update)
    (known : ∀ slot ∈ update.free, slot ∈ slots)
    (read : ∀ cell ∈ update.reads schema, cell ∈ cells)
    (changed : ∀ cell ∈ update.changes, cell ∈ cells)
    : Alike (Store.Agree slots cells) (update.run schema limit)
        (Store.Agree (slots ∪ {slot | slot ∈ update.binds}) cells) := by
  -- All effects but a binding leave no slot bound, so agreement stays as it is.
  have settled (nothing : update.binds = [])
      (alike : Alike (Store.Agree slots cells) (update.run schema limit) (Store.Agree slots cells))
      : Alike (Store.Agree slots cells) (update.run schema limit)
          (Store.Agree (slots ∪ {slot | slot ∈ update.binds}) cells) :=
    alike.weaken (fun _ _ agree => agree) fun _ _ agree => agree.shrink (by simp [nothing])
  cases update with
  | assign => exact settled rfl (simple_alike limit trivial known read changed)
  | assignLocal => exact settled rfl (simple_alike limit trivial known read changed)
  | insert => exact settled rfl (simple_alike limit trivial known read changed)
  | remove => exact settled rfl (simple_alike limit trivial known read changed)
  | replace => exact settled rfl (simple_alike limit trivial known read changed)
  | bind slot name value body =>
      simp only [free, reads, List.forall_mem_append] at known read
      rw [run]
      refine .bind (.observe fun left right agree =>
        Expr.eval_agree agree value known.1 read.1) fun found => ?_
      refine .bind (.modify fun left right agree => agree.bind slot found) fun _ => ?_
      refine (runAll_alike limit body (known_of_filter known.2) read.2 changed).weaken
        (fun _ _ agree => agree) fun left right agree => agree.shrink ?_
      simp only [binds]
      intro other member
      rcases member with old | new
      · exact Or.inl (Or.inl old)
      · rcases List.mem_cons.mp new with same | later
        · exact Or.inl (Or.inr same)
        · exact Or.inr later
  | branch condition thenBody elseBody =>
      simp only [free, reads, changes, List.forall_mem_append] at known read changed
      refine settled rfl ?_
      rw [run]
      refine .bind (.observe fun left right agree => agree.evalBool known.1 read.1) fun holds => ?_
      split
      · exact body_alike limit thenBody known.2.1 read.2.1 changed.1
      · exact body_alike limit elseBody known.2.2 read.2.2 changed.2
  | forEach slot name entity filter body =>
      simp only [free, reads, List.forall_mem_append, Option.mem_toList] at known read
      have inside := known_of_filter known
      rw [List.forall_mem_append] at inside
      have ids {left right : Store} (agree : Store.Agree slots cells left right)
          : ∀ cell ∈ schema.cell? entity, left.state.SameAt right.state cell :=
        fun cell member => agree.cells cell (read.1 cell member)
      refine settled rfl ?_
      rw [run]
      refine .get_bind (fun left right agree => ?_) fun seen => ?_
      · rw [State.ids_agree (ids agree)]
      · refine .bind (?_ : Alike _ _ (Store.Agree slots cells)) fun _ => ?_
        · refine .forIds (fun left right id agree => State.hasId_agree (ids agree) id)
            (fun left right id agree => agree.bind slot (.int id)) ?_ ?_
            (fun left right agree => agree.shrink Set.subset_union_left) _
          · exact .observe fun left right agree => agree.passes inside.1 read.2.1
          · exact body_alike limit body inside.2 read.2.2 changed
        · exact .modify fun left right agree => agree.unbind slot
  | loop condition body =>
      simp only [free, reads, List.forall_mem_append] at known read
      refine settled rfl ?_
      rw [run]
      exact .whileHolds (.observe fun left right agree => agree.evalBool known.1 read.1)
        (body_alike limit body known.2 read.2 changed) limit

/-- A body runs alike, and no slot that it leaves bound matters after it: the slots that the stores
agreed on before are those that they are asked about behind it.
-/
theorem body_alike {slots : Set Nat} (limit : Nat) (body : List Update)
    (known : ∀ slot ∈ freeAll body, slot ∈ slots)
    (read : ∀ cell ∈ readsAll schema body, cell ∈ cells)
    (changed : ∀ cell ∈ changesAll body, cell ∈ cells)
    : Alike (Store.Agree slots cells) (runAll schema limit body) (Store.Agree slots cells) :=
  (runAll_alike limit body known read changed).weaken (fun _ _ agree => agree)
    fun _ _ agree => agree.shrink Set.subset_union_left

/-- Effects run alike from stores that agree on their free slots and on the cells that they read or
change, by induction on the effects.
-/
theorem runAll_alike {slots : Set Nat} (limit : Nat) (updates : List Update)
    (known : ∀ slot ∈ freeAll updates, slot ∈ slots)
    (read : ∀ cell ∈ readsAll schema updates, cell ∈ cells)
    (changed : ∀ cell ∈ changesAll updates, cell ∈ cells)
    : Alike (Store.Agree slots cells) (runAll schema limit updates)
        (Store.Agree (slots ∪ {slot | slot ∈ bindsAll updates}) cells) := by
  cases updates with
  | nil => exact .pure fun left right agree => agree.shrink (by simp [bindsAll])
  | cons update rest =>
      simp only [freeAll, readsAll, changesAll, List.forall_mem_append] at known read changed
      rw [runAll]
      refine .bind (run_alike limit update known.1 read.1 changed.1) fun _ => ?_
      refine (runAll_alike limit rest (fun slot member => Or.inl (known.2 slot member)) read.2
        changed.2).weaken (fun _ _ agree => agree) fun left right agree => agree.shrink ?_
      simp only [bindsAll, List.mem_append]
      intro slot member
      rcases member with old | first | later
      · exact Or.inl (Or.inl old)
      · exact Or.inl (Or.inr first)
      · exact Or.inr later

end

theorem mem_freeAll_iff {updates : List Update} {slot : Nat}
    : slot ∈ freeAll updates ↔ ∃ update ∈ updates, slot ∈ update.free := by
  induction updates with
  | nil => simp [freeAll]
  | cons update rest ih => simp [freeAll, ih]

theorem mem_readsAll_iff {updates : List Update} {cell : Cell}
    : cell ∈ readsAll schema updates ↔ ∃ update ∈ updates, cell ∈ update.reads schema := by
  induction updates with
  | nil => simp [readsAll]
  | cons update rest ih => simp [readsAll, ih]

end Update

-----------------------------------------------------------------------------------------
-- Costs and whole runs
-----------------------------------------------------------------------------------------

/-- The slots whose values a cost takes over from before it. -/
def Cost.free (cost : Cost) : List Nat :=
  Update.freeAll cost.updates
    ++ cost.value.mentions.filter (· ∉ Update.bindsAll cost.updates)

/-- The cells that a cost reads. -/
def Cost.reads (schema : Schema) (cost : Cost) : List Cell :=
  Update.readsAll schema cost.updates ++ cost.value.reads schema

section

variable {schema : Schema} {slots : Set Nat} {cells : Set Cell} {cost : Cost}

/-- A cost runs alike from stores that agree on its free slots and on the cells that it reads or
changes.
-/
theorem Cost.run_alike (limit : Nat) (known : ∀ slot ∈ cost.free, slot ∈ slots)
    (read : ∀ cell ∈ cost.reads schema, cell ∈ cells)
    (changed : ∀ cell ∈ cost.changes, cell ∈ cells)
    : Alike (Store.Agree slots cells) (cost.run schema limit) (Store.Agree slots cells) := by
  simp only [free, reads, List.forall_mem_append, List.mem_filter, decide_eq_true_eq]
    at known read
  have valueKnown
      : ∀ slot ∈ cost.value.mentions,
          slot ∈ slots ∪ {slot | slot ∈ Update.bindsAll cost.updates} := by
    intro slot mentioned
    by_cases bound : slot ∈ Update.bindsAll cost.updates
    · exact Or.inr bound
    · exact Or.inl (known.2 slot ⟨mentioned, bound⟩)
  refine .bind (Update.runAll_alike limit cost.updates known.1 read.1 changed) fun _ => ?_
  refine Alike.weaken (.observe fun left right agree => agree.evalInt valueKnown read.2)
    (fun _ _ agree => agree) fun left right agree => agree.shrink Set.subset_union_left

/-- Effects and a cost run alike from stores that agree on their free slots and on the cells that
they read or change.

A slot that the effects leave bound may be free in the cost, which is why the cost is asked for its
free slots separately.
-/
theorem runWithCost_alike {effects : List Update} (limit : Nat)
    (known : ∀ slot ∈ Update.freeAll effects ++ cost.free, slot ∈ slots)
    (read : ∀ cell ∈ Update.readsAll schema effects ++ cost.reads schema, cell ∈ cells)
    (changed : ∀ cell ∈ Update.changesAll effects ++ cost.changes, cell ∈ cells)
    : Alike (Store.Agree slots cells) (runWithCost schema limit effects cost)
        (Store.Agree slots cells) := by
  simp only [List.forall_mem_append, Update.mem_freeAll_iff, Update.mem_readsAll_iff,
    Update.mem_changesAll_iff] at known read changed
  have ran
      : Alike (Store.Agree slots cells) (Update.runAll schema limit effects.reverse)
          (Store.Agree (slots ∪ {slot | slot ∈ Update.bindsAll effects.reverse}) cells) := by
    refine Update.runAll_alike limit _ ?_ ?_ ?_
    · simpa only [Update.mem_freeAll_iff, List.mem_reverse] using known.1
    · simpa only [Update.mem_readsAll_iff, List.mem_reverse] using read.1
    · simpa only [Update.mem_changesAll_iff, List.mem_reverse] using changed.1
  refine .bind (ran.weaken (fun _ _ agree => agree) fun left right agree =>
    agree.shrink Set.subset_union_left) fun _ => ?_
  exact Cost.run_alike limit known.2 read.2 changed.2

end

end Dispatch
