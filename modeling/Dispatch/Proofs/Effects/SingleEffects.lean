import Dispatch.Proofs.Execution.Triple
import Dispatch.Proofs.Layout.LiveIds

/-!
What a single effect comes to. It looks at the store, then makes one change that is checked before;
where anything fails, the store is left as it is. What is read after the change is told place by
place: a change of one id of a collection concerns the item with that id alone.
-/

namespace Dispatch

open Execution

-----------------------------------------------------------------------------------------
-- Reads
-----------------------------------------------------------------------------------------

/-- The live item of a collection with an id. -/
def State.item? (state : State) (collection : Nat) (id : Int) : Option Item :=
  state.collections[collection]?.bind (·.get? id)

namespace Store

/-- What a name of the vocabulary reads at an index. -/
def readName (vocabulary : Vocabulary) (schema : Schema) (store : Store) (name : String)
    (index : Int)
    : Except EvalError Value :=
  match vocabulary.place? name with
  | some place => (Expr.read place name (.int index)).eval schema store
  | none => .error (.undefinedStorage name)

variable (schema : Schema) (store : Store) (name : String) (index : Int)

theorem readName_eq {vocabulary : Vocabulary} {place : Place}
    (named : vocabulary.place? name = some place)
    : readName vocabulary schema store name index = store.read schema place name index := by
  simp only [readName, named, Expr.eval]
  rfl

/-- Reading a variable fails where there is no such variable, or no value at the index, and gives
the value at the index everywhere else.
-/
theorem read_var (slot : Nat)
    : store.read schema (.var slot) name index
      = (store.state.mutables[slot]?).elim (.error (.undefinedStorage name)) fun values =>
          (valueAt? values index).elim (.error (.indexOutOfBounds name index values.size)) .ok := by
  cases stored : store.state.mutables[slot]? with
  | none => simp [read, stored]
  | some values => cases found : valueAt? values index <;> simp [read, stored, found]

/-- Reading a field fails where the item is not live, or has no such field, and gives the value of
the field everywhere else.
-/
theorem read_field (collection slot : Nat) (constant : Bool)
    : store.read schema (.field collection slot constant) name index
      = (store.state.item? collection index).elim
          (.error (.unknownItem (schema.collectionName collection) index)) fun item =>
            (item.field? constant slot).elim (.error (.undefinedStorage name)) .ok := by
  unfold State.item?
  cases live : store.state.collections[collection]?.bind (·.get? index) with
  | none => simp [read, live]
  | some item => cases found : item.field? constant slot <;> simp [read, live, found]

end Store

-----------------------------------------------------------------------------------------
-- Items after a change
-----------------------------------------------------------------------------------------

namespace State

variable {state : State} {collection : Nat}

/-- A change of the item of an id concerns that item alone. -/
theorem item?_change (id : Int) (change : Item → Option Item) (other : Nat) (index : Int)
    : (state.modifyCollection collection (·.change id change)).item? other index
      = if collection = other ∧ id = index then (state.item? other index).bind change
        else state.item? other index := by
  unfold item? modifyCollection
  rw [List.getElem?_modify]
  by_cases same : collection = other
  · cases stored : state.collections[other]? with
    | none => simp
    | some items => simp [same, Items.get?_change_eq items id index change]
  · simp [same]

/-- An added item has the next id of its collection, and no other item changes. -/
theorem item?_addItem {items : Items} (stored : state.collections[collection]? = some items)
    (item : Item) (other : Nat) (index : Int)
    : (state.addItem ⟨collection, item⟩).item? other index
      = if collection = other ∧ index = items.nextId then some item
        else state.item? other index := by
  unfold item? addItem modifyCollection
  rw [List.getElem?_modify]
  by_cases same : collection = other
  · subst same
    simp [stored, Items.get?_insert_eq]
  · simp [same]

end State

-----------------------------------------------------------------------------------------
-- Effects from a store
-----------------------------------------------------------------------------------------

namespace Execution

variable {α β : Type} {start : Store} {post : α → Store → Prop}

/-- From the start the computation succeeds with the condition, or fails and leaves the store as it
was.
-/
abbrev FromStart (start : Store) (execution : Execution α) (post : α → Store → Prop) : Prop :=
  Meets (· = start) execution post fun _ after => after = start

/-- What follows a look at the store starts from there with the value that was found. -/
theorem FromStart.observe_bind {look : Store → Except EvalError β} {next : β → Execution α}
    (continues : ∀ found, look start = .ok found → FromStart start (next found) post)
    : FromStart start (observe look >>= next) post := by
  have looked
      : FromStart start (observe look) fun found store => store = start ∧ look start = .ok found :=
    Meets.observe (fun _ same _ _ => same) fun _ _ same found => ⟨same, same ▸ found⟩
  exact looked.bind fun found store holds => continues found holds.2 store holds.1

/-- A checked change at the end of an effect makes of the start what it makes of a state, if the
start passes the check.
-/
theorem FromStart.change {check : State → Except EvalError Unit} {next : State → State}
    : FromStart start (Execution.change check next) fun _ after =>
        check start.state = .ok () ∧ after = { start with state := next start.state } := by
  refine Meets.change (fun store same _ _ => same) fun store same checked => ?_
  subst same
  exact ⟨checked, rfl⟩

/-- A modification at the end of an effect makes of the start what it makes of a store. -/
theorem FromStart.modify {step : Store → Store}
    : FromStart start (modify step) fun _ after => after = step start :=
  Meets.modify fun _ same => congrArg step same

end Execution

namespace Update

variable (schema : Schema) (limit : Nat) (start : Store)

/-- An assignment writes the value to the index, both as they are before.

Index and value are evaluated and the write is checked before anything is changed, so the store is
as it was wherever the assignment fails.
-/
theorem assign_fromStart (place : Place) (name : String) (index value : Expr)
    : FromStart start ((Update.assign place name index value).run schema limit) fun _ after =>
        ∃ position written, index.evalInt schema start = .ok position
          ∧ value.eval schema start = .ok written
          ∧ start.state.checkWrite schema place name position written = .ok ()
          ∧ after = { start with state := start.state.write place position written } := by
  rw [run]
  refine .observe_bind fun position indexed => .observe_bind fun written valued => ?_
  exact FromStart.change.weaken (fun _ same => same) fun _ _ changed =>
    ⟨position, written, indexed, valued, changed⟩

/-- An assignment to a named value binds its slot to the value before. -/
theorem assignLocal_fromStart (slot : Nat) (name : String) (value : Expr)
    : FromStart start ((Update.assignLocal slot name value).run schema limit) fun _ after =>
        ∃ written, value.eval schema start = .ok written ∧ after = start.bind slot written := by
  rw [run]
  refine .observe_bind fun written valued => ?_
  exact FromStart.modify.weaken (fun _ same => same) fun _ _ bound => ⟨written, valued, bound⟩

/-- Adding an item makes it of the values of its fields before, all of which are evaluated before
the item is there.
-/
theorem insert_fromStart (entity collection : Nat) (fields : List Expr)
    : FromStart start ((Update.insert entity collection fields).run schema limit) fun _ after =>
        ∃ item, start.newItem schema collection fields = .ok item
          ∧ start.state.checkCollection schema collection = .ok ()
          ∧ after = { start with state := start.state.addItem ⟨collection, item⟩ } := by
  rw [run]
  refine .observe_bind fun item made => ?_
  exact FromStart.change.weaken (fun _ same => same) fun _ _ changed => ⟨item, made, changed⟩

/-- Replacing an item makes the new one of the values of its fields before, which may be those of
the item that is replaced.
-/
theorem replace_fromStart (entity collection : Nat) (id : Expr) (fields : List Expr)
    : FromStart start ((Update.replace entity collection id fields).run schema limit)
        fun _ after =>
          ∃ index item, id.evalInt schema start = .ok index
            ∧ start.newItem schema collection fields = .ok item
            ∧ start.state.checkItem schema collection index = .ok ()
            ∧ after
              = { start with
                  state := start.state.modifyCollection collection (·.replace index item) } := by
  rw [run]
  refine .observe_bind fun index evaluated => .observe_bind fun item made => ?_
  exact FromStart.change.weaken (fun _ same => same) fun _ _ changed =>
    ⟨index, item, evaluated, made, changed⟩

end Update

end Dispatch
