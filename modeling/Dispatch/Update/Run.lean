import Dispatch.Expr.Eval
import Dispatch.Update

/-!
Running effects on a store. What was changed before a failure stays changed. A loop whose condition
holds for more rounds than a given limit counts as endless, which is told apart from a failure.
-/

namespace Dispatch

inductive Halt where
  | failed (error : EvalError)
  /-- A loop had more rounds than its limit. -/
  | endless
deriving DecidableEq

/-- A computation on a store that keeps its changes when it stops early. -/
abbrev Execution := EStateM Halt Store

namespace Execution

/-- Looks at the store without changing it. -/
def observe {α : Type} (look : Store → Except EvalError α) : Execution α := fun store =>
  match look store with
  | .ok value => .ok value store
  | .error error => .error (.failed error) store

/-- Changes the state where the check allows it. -/
def change (check : State → Except EvalError Unit) (next : State → State) : Execution Unit :=
  fun store =>
    match check store.state with
    | .ok () => .ok () { store with state := next store.state }
    | .error error => .error (.failed error) store

/-- Runs the body once for each of the ids that is live when its turn comes and passes the test,
with the slot bound to it.
-/
def forIds (schema : Schema) (slot entity : Nat) (test : Execution Bool) (body : Execution Unit)
    : List Int → Execution Unit
  | [] => pure ()
  | id :: rest => do
      if (← get).state.hasId schema entity id then
        modify (·.bind slot (.int id))
        if ← test then body
      forIds schema slot entity test body rest

/-- Runs the body as long as the test holds, for at most the given number of rounds. -/
def whileHolds (test : Execution Bool) (body : Execution Unit) : Nat → Execution Unit
  | 0 => do
      if ← test then throw .endless
  | rounds + 1 => do
      if ← test then
        body
        whileHolds test body rounds

end Execution

namespace State

/-- Refuses to write to a constant, a value of another kind, or at an index without a value. -/
def checkWrite (schema : Schema) (state : State) (place : Place) (name : String) (index : Int)
    (value : Value) : Except EvalError Unit := do
  if place.isConstant then throw (.readOnly name)
  if let some kind := schema.kind? place then
    if !value.hasKind kind then
      throw (.typeMismatch (.single kind.valueType) value.type)
  match place with
  | .const _ => throw (.readOnly name)
  | .var slot =>
      let some values := state.mutables[slot]? | throw (.undefinedStorage name)
      if (valueAt? values index).isNone then
        throw (.indexOutOfBounds name index values.size)
  | .field collection slot _ =>
      let unknown := EvalError.unknownItem (schema.collectionName collection) index
      let some items := state.collections[collection]? | throw unknown
      let some item := items.get? index | throw unknown
      if item.mutables.length ≤ slot then throw (.undefinedStorage name)

/-- The state with a value written at an index of a mutable variable, or into the field of the item
with that id.
-/
def write (state : State) (place : Place) (index : Int) (value : Value) : State :=
  match place with
  | .const _ => state
  | .var slot =>
      match index.toNat? with
      | some position =>
          { state with mutables := state.mutables.modify slot (·.setIfInBounds position value) }
      | none => state
  | .field collection slot _ => state.modifyCollection collection (·.setField index slot value)

/-- Refuses to add to a collection that does not exist. -/
def checkCollection (schema : Schema) (state : State) (collection : Nat)
    : Except EvalError Unit :=
  if collection < state.collections.length then .ok ()
  else .error (.unknownItem (schema.collectionName collection) (-1))

/-- Refuses an id that is not in use. -/
def checkItem (schema : Schema) (state : State) (collection : Nat) (id : Int)
    : Except EvalError Unit :=
  if state.collections[collection]?.any (·.contains id) then .ok ()
  else .error (.unknownItem (schema.collectionName collection) id)

end State

/-- The item of a collection that field expressions give, in order of declaration. -/
def Store.newItem (schema : Schema) (store : Store) (collection : Nat) (fields : List Expr)
    : Except EvalError Item := do
  let some layout := schema.collections[collection]?
    | throw (.unknownItem (schema.collectionName collection) (-1))
  let values ← Expr.evalAll schema store fields
  match CollectionLayout.row layout.fields values with
  | .ok item => return item
  | .error field => throw (.fieldMismatch field.kind field.name)

/-- Whether the filter of a loop over ids passes; a missing filter always does. -/
def Expr.passes (schema : Schema) (store : Store) : Option Expr → Except EvalError Bool
  | none => .ok true
  | some filter => filter.evalBool schema store

namespace Update

open Execution

mutual

/-- Runs an effect. The values that a loop over ids and a binding give to slots are seen by the body
alone, save that a bound value stays for the effects and the cost after it.
-/
def run (schema : Schema) (limit : Nat) : Update → Execution Unit
  | .assign place name index value => do
      let index ← observe fun store => index.evalInt schema store
      let value ← observe fun store => value.eval schema store
      change (fun state => state.checkWrite schema place name index value)
        (fun state => state.write place index value)
  | .assignLocal slot _ value => do
      let value ← observe fun store => value.eval schema store
      modify (·.bind slot value)
  | .insert _ collection fields => do
      let item ← observe fun store => store.newItem schema collection fields
      change (fun state => state.checkCollection schema collection)
        (fun state => state.addItem ⟨collection, item⟩)
  | .remove _ collection id => do
      let id ← observe fun store => id.evalInt schema store
      change (fun state => state.checkItem schema collection id)
        (fun state => state.modifyCollection collection (·.remove id))
  | .replace _ collection id fields => do
      let id ← observe fun store => id.evalInt schema store
      let item ← observe fun store => store.newItem schema collection fields
      change (fun state => state.checkItem schema collection id)
        (fun state => state.modifyCollection collection (·.replace id item))
  | .bind slot _ value body => do
      let value ← observe fun store => value.eval schema store
      modify (·.bind slot value)
      runAll schema limit body
  | .branch condition thenBody elseBody => do
      if ← observe fun store => condition.evalBool schema store then
        runAll schema limit thenBody
      else runAll schema limit elseBody
  | .forEach slot _ entity filter body => do
      let ids := (← get).state.ids schema entity
      forIds schema slot entity (observe fun store => Expr.passes schema store filter)
        (runAll schema limit body) ids
      modify (·.unbind slot)
  | .loop condition body =>
      whileHolds (observe fun store => condition.evalBool schema store)
        (runAll schema limit body) limit

def runAll (schema : Schema) (limit : Nat) : List Update → Execution Unit
  | [] => pure ()
  | update :: rest => do
      update.run schema limit
      runAll schema limit rest

end

end Update

/-- Runs the effects of a cost, then evaluates its value. -/
def Cost.run (schema : Schema) (limit : Nat) (cost : Cost) : Execution Int := do
  Update.runAll schema limit cost.updates
  Execution.observe fun store => cost.value.evalInt schema store

/-- A number of rounds that no loop of a running program reaches. -/
def roundLimit : Nat := 4611686018427387904

end Dispatch
