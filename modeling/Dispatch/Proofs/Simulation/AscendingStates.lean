import Dispatch.Proofs.Evaluation.SetAlgebra
import Dispatch.Proofs.Evaluation.SlotDependence
import Dispatch.Proofs.Simulation.ItemIdentity

/-!
Sets and maps stay ascending in a whole simulation. The values that a problem gives are ascending,
and what an effect writes was evaluated from the values of the store; so all values of every state
that a simulation comes to are ascending, and an expression whose value there is a set has that of a
finite set.
-/

namespace Dispatch

open Execution

-----------------------------------------------------------------------------------------
-- Ascending states
-----------------------------------------------------------------------------------------

/-- The fields of all live items are ascending. -/
def Items.Ascend (items : Items) : Prop :=
  ∀ id item, items.get? id = some item → item.Holds Value.Ascends

/-- All values of the variables and of the live items of the state are ascending. -/
structure State.Ascends (state : State) : Prop where
  values : ∀ values ∈ state.mutables, ∀ value ∈ values, value.Ascends
  items : ∀ items ∈ state.collections, items.Ascend

/-- A condition that holds of a value and of all fields of an item holds of all fields with that
value in one of them.
-/
theorem Item.Holds.setField {condition : Value → Prop} {item : Item} {value : Value}
    (holds : item.Holds condition) (slot : Nat) (has : condition value)
    : (item.setField slot value).Holds condition := by
  obtain ⟨constants, mutables⟩ := List.forall_mem_append.mp holds
  refine List.forall_mem_append.mpr ⟨constants, fun one member => ?_⟩
  rcases List.mem_or_eq_of_mem_set member with old | rfl
  · exact mutables one old
  · exact has

theorem Item.mem_of_field? {item : Item} {constant : Bool} {slot : Nat} {value : Value}
    (found : item.field? constant slot = some value)
    : value ∈ item.constants ++ item.mutables := by
  cases constant with
  | true => exact List.mem_append_left _ (List.mem_of_getElem? found)
  | false => exact List.mem_append_right _ (List.mem_of_getElem? found)

namespace Items.Ascend

variable {items : Items} {item : Item}

theorem empty : Items.empty.Ascend := by
  intro id item present
  cases present

theorem insert (ascend : items.Ascend) (holds : item.Holds Value.Ascends)
    : (items.insert item).Ascend := by
  intro id found present
  rcases get?_insert present with old | rfl
  · exact ascend id found old
  · exact holds

theorem remove (ascend : items.Ascend) (id : Int) : (items.remove id).Ascend := by
  intro other found present
  rcases get?_change present with old | ⟨_, _, made⟩
  · exact ascend other found old
  · cases made

theorem replace (ascend : items.Ascend) (id : Int) (holds : item.Holds Value.Ascends)
    : (items.replace id item).Ascend := by
  intro other found present
  rcases get?_change present with old | ⟨_, _, made⟩
  · exact ascend other found old
  · obtain rfl := Option.some.inj made
    exact holds

theorem setField (ascend : items.Ascend) (id : Int) (slot : Nat) {value : Value}
    (ascends : value.Ascends)
    : (items.setField id slot value).Ascend := by
  intro other found present
  rcases get?_change present with old | ⟨item, live, made⟩
  · exact ascend other found old
  · obtain rfl := Option.some.inj made
    exact (ascend id item live).setField slot ascends

end Items.Ascend

namespace State.Ascends

variable {state : State}

/-- A state stays ascending when one collection is changed in a way that keeps items ascending. -/
theorem modifyCollection (ascends : state.Ascends) (collection : Nat) {change : Items → Items}
    (keeps : ∀ items : Items, items.Ascend → (change items).Ascend)
    : (state.modifyCollection collection change).Ascends := by
  refine ⟨ascends.values, fun items member => ?_⟩
  obtain ⟨position, present⟩ := List.mem_iff_getElem?.mp member
  rw [State.modifyCollection, List.getElem?_modify] at present
  obtain ⟨before, found, rfl⟩ := Option.map_eq_some_iff.mp present
  have kept := ascends.items before (List.mem_of_getElem? found)
  split
  · exact keeps before kept
  · exact kept

theorem addItem (ascends : state.Ascends) {added : NewItem}
    (holds : added.item.Holds Value.Ascends)
    : (state.addItem added).Ascends :=
  ascends.modifyCollection added.collection fun _ ascend => ascend.insert holds

/-- A state stays ascending when ascending items join it, by induction on them. -/
theorem addItems (ascends : state.Ascends) {added : List NewItem}
    (each : ∀ one ∈ added, one.item.Holds Value.Ascends)
    : (state.addItems added).Ascends := by
  induction added generalizing state with
  | nil => exact ascends
  | cons first rest ih =>
      obtain ⟨firstHolds, others⟩ := List.forall_mem_cons.mp each
      exact ih (ascends.addItem firstHolds) others

/-- A state stays ascending when an ascending value is written, be the place a variable or a field
of an item.
-/
theorem write (ascends : state.Ascends) (place : Place) (index : Int) {value : Value}
    (valueAscends : value.Ascends)
    : (state.write place index value).Ascends := by
  cases place with
  | const slot => exact ascends
  | field collection slot constant =>
      exact ascends.modifyCollection collection fun _ ascend =>
        ascend.setField index slot valueAscends
  | var slot =>
      unfold State.write
      dsimp only
      split
      · refine ⟨fun values member => ?_, ascends.items⟩
        obtain ⟨position, present⟩ := List.mem_iff_getElem?.mp member
        rw [List.getElem?_modify] at present
        obtain ⟨before, found, rfl⟩ := Option.map_eq_some_iff.mp present
        have kept := ascends.values before (List.mem_of_getElem? found)
        split
        · intro one inside
          rcases Array.mem_or_eq_of_mem_setIfInBounds inside with old | rfl
          · exact kept one old
          · exact valueAscends
        · exact kept
      · exact ascends

end State.Ascends

-----------------------------------------------------------------------------------------
-- Ascending stores
-----------------------------------------------------------------------------------------

/-- All values of the state and of the bound slots of the store are ascending. -/
structure Store.HoldsAscending (store : Store) : Prop where
  state : store.state.Ascends
  bound : ∀ slot value, store.bindings.get? slot = some value → value.Ascends

namespace Store.HoldsAscending

variable {store : Store}

/-- A store keeps its values ascending with an ascending one bound to a slot. -/
theorem bind (holds : store.HoldsAscending) (slot : Nat) {value : Value}
    (ascends : value.Ascends)
    : (store.bind slot value).HoldsAscending := by
  refine ⟨holds.state, fun other found present => ?_⟩
  rw [Store.bind, Bindings.get?_bind] at present
  split at present
  · obtain rfl := Option.some.inj present
    exact ascends
  · exact holds.bound other found present

theorem unbind (holds : store.HoldsAscending) (slot : Nat)
    : (store.unbind slot).HoldsAscending := by
  refine ⟨holds.state, fun other found present => ?_⟩
  rw [Store.unbind, Bindings.get?_unbind] at present
  split at present
  · cases present
  · exact holds.bound other found present

theorem ofIds {state : State} (ascends : state.Ascends) (ids : List Int)
    : HoldsAscending ⟨state, .ofIds ids⟩ := by
  refine ⟨ascends, fun slot value present => ?_⟩
  rw [Bindings.get?_ofIds] at present
  obtain ⟨id, _, rfl⟩ := Option.map_eq_some_iff.mp present
  trivial

/-- What is read from ascending constants and an ascending state is ascending. The cases are those
of the place, and a value that is read was stored there.
-/
theorem ascends {schema : Schema} (holds : store.HoldsAscending)
    (constants : ∀ table ∈ schema.constants, ∀ value ∈ table.values, value.Ascends)
    : store.Ascends schema := by
  refine ⟨holds.bound, fun place name index => ?_⟩
  have inArray {values : Array Value} (each : ∀ value ∈ values, value.Ascends) {value : Value}
      (found : valueAt? values index = some value)
      : value.Ascends := by
    obtain ⟨position, _, found⟩ := Option.bind_eq_some_iff.mp found
    exact each value (Array.mem_of_getElem? found)
  unfold Store.read
  cases place with
  | const slot =>
      dsimp only
      split
      · exact .error _
      · rename_i values stored
        obtain ⟨table, found, rfl⟩ := Option.map_eq_some_iff.mp stored
        split
        · rename_i value present
          exact .ok (inArray (constants table (List.mem_of_getElem? found)) present)
        · exact .error _
  | var slot =>
      dsimp only
      split
      · exact .error _
      · rename_i values stored
        split
        · rename_i value present
          exact .ok (inArray (holds.state.values values (List.mem_of_getElem? stored)) present)
        · exact .error _
  | field collection slot constant =>
      dsimp only
      split
      · exact .error _
      · rename_i item live
        obtain ⟨items, stored, present⟩ := Option.bind_eq_some_iff.mp live
        have fields := holds.state.items items (List.mem_of_getElem? stored) index item present
        split
        · rename_i value found
          exact .ok (fields value (Item.mem_of_field? found))
        · exact .error _

end Store.HoldsAscending

-----------------------------------------------------------------------------------------
-- Runs
-----------------------------------------------------------------------------------------

/-- The computation keeps all values ascending, whether it succeeds or stops early. -/
abbrev Execution.KeepsAscending {α : Type} (execution : Execution α) : Prop :=
  Meets Store.HoldsAscending execution (fun _ => Store.HoldsAscending)
    (fun _ => Store.HoldsAscending)

/-- The schema gives ascending values only: to constants, to the initial state, and to the items of
the batches.
-/
structure Schema.GivesAscending (schema : Schema) : Prop where
  constants : ∀ table ∈ schema.constants, ∀ value ∈ table.values, value.Ascends
  initial : schema.initial.Ascends
  batches : ∀ batch ∈ schema.batches, ∀ added ∈ batch, added.item.Holds Value.Ascends

section

variable {schema : Schema}

/-- Evaluating an expression keeps all values ascending and yields an ascending one. -/
theorem Execution.Meets.eval (gives : schema.GivesAscending) (expr : Expr)
    : Meets Store.HoldsAscending (Execution.observe fun store => expr.eval schema store)
        (fun value store => store.HoldsAscending ∧ value.Ascends)
        (fun _ => Store.HoldsAscending) :=
  .observe (fun _ holds _ _ => holds) fun _ value holds evaluated =>
    ⟨holds, Expr.eval_ascends (holds.ascends gives.constants) expr value evaluated⟩

/-- The item that is made of fields holds ascending values, as each of them is the value of an
expression.
-/
theorem Execution.Meets.newItem (gives : schema.GivesAscending) (collection : Nat)
    (fields : List Expr)
    : Meets Store.HoldsAscending
        (Execution.observe fun store => store.newItem schema collection fields)
        (fun item store => store.HoldsAscending ∧ item.Holds Value.Ascends)
        (fun _ => Store.HoldsAscending) := by
  refine .observe (fun _ holds _ _ => holds) fun store item holds made => ⟨holds, ?_⟩
  obtain ⟨layout, values, _, evaluated, built⟩ := Store.row_of_newItem made
  have ascend :=
    Expr.evalAll_ascend (holds.ascends gives.constants) fields values evaluated
  exact CollectionLayout.holds_of_row (Value.allAscend_iff.mp ascend) built

namespace Update

mutual

/-- An effect keeps all values ascending, by induction on the effect. This is also where a body runs
many times, which the invariant of a loop covers.
-/
theorem run_ascends (gives : schema.GivesAscending) (limit : Nat) (update : Update)
    : KeepsAscending (update.run schema limit) := by
  cases update with
  | assign place name index value =>
      rw [run]
      refine .bind (.peek _) fun position => .bind (.eval gives value) fun found => ?_
      exact .change (fun _ holds _ _ => holds.1) fun _ holds _ =>
        ⟨holds.1.state.write place position holds.2, holds.1.bound⟩
  | assignLocal slot name value =>
      rw [run]
      exact .bind (.eval gives value) fun found => .modify fun _ holds =>
        holds.1.bind slot holds.2
  | insert entity collection fields =>
      rw [run]
      refine .bind (.newItem gives collection fields) fun item => ?_
      exact .change (fun _ holds _ _ => holds.1) fun _ holds _ =>
        ⟨holds.1.state.addItem holds.2, holds.1.bound⟩
  | remove entity collection id =>
      rw [run]
      refine .bind (.peek _) fun found => ?_
      exact .change (fun _ holds _ _ => holds) fun _ holds _ =>
        ⟨holds.state.modifyCollection collection fun _ ascend => ascend.remove found, holds.bound⟩
  | replace entity collection id fields =>
      rw [run]
      refine .bind (.peek _) fun found => ?_
      refine .bind (.newItem gives collection fields) fun item => ?_
      exact .change (fun _ holds _ _ => holds.1) fun _ holds _ =>
        ⟨holds.1.state.modifyCollection collection fun _ ascend => ascend.replace found holds.2,
          holds.1.bound⟩
  | bind slot name value body =>
      rw [run]
      refine .bind (.eval gives value) fun found => ?_
      exact .modify_bind (fun _ holds => holds.1.bind slot holds.2)
        (runAll_ascends gives limit body)
  | branch condition thenBody elseBody =>
      rw [run]
      refine .bind (.peek _) fun holds => ?_
      split
      · exact runAll_ascends gives limit thenBody
      · exact runAll_ascends gives limit elseBody
  | forEach slot name entity filter body =>
      rw [run]
      refine .get_bind fun seen => ?_
      have looped
          : KeepsAscending
              (forIds schema slot entity (observe fun store => Expr.passes schema store filter)
                (runAll schema limit body) (seen.state.ids schema entity)) :=
        .forIds (fun _ _ holds => holds.bind slot trivial) (.peek _)
          (runAll_ascends gives limit body) (fun _ holds => holds) _
      refine .bind (looped.weaken (fun _ holds => holds.2) fun _ _ holds => holds) fun _ => ?_
      exact .modify fun _ holds => holds.unbind slot
  | loop condition body =>
      rw [run]
      exact .whileHolds (.peek _) (runAll_ascends gives limit body) (fun _ holds => holds) limit

/-- Effects keep all values ascending, by induction on the effects. -/
theorem runAll_ascends (gives : schema.GivesAscending) (limit : Nat) (updates : List Update)
    : KeepsAscending (runAll schema limit updates) := by
  cases updates with
  | nil => exact .pure fun _ holds => holds
  | cons update rest =>
      rw [runAll]
      exact .bind (run_ascends gives limit update) fun _ => runAll_ascends gives limit rest

end

end Update

theorem runWithCost_ascends (gives : schema.GivesAscending) (limit : Nat) (effects : List Update)
    (cost : Cost)
    : KeepsAscending (runWithCost schema limit effects cost) := by
  refine .runWithCost (fun update _ => update.run_ascends gives limit) ?_
  exact .bind (Update.runAll_ascends gives limit cost.updates) fun _ => .peek _

/-- Every domain maintains that states are ascending where the schema gives ascending values. The
effects of actions and of steps are no others than those for which it was shown.
-/
theorem Schema.GivesAscending.maintains (gives : schema.GivesAscending) (domain : Domain)
    : domain.Maintains schema State.Ascends := by
  have carried (effects : List Update) (cost : Cost) (limit : Nat)
      : Execution.Carries State.Ascends (runWithCost schema limit effects cost) :=
    (runWithCost_ascends gives limit effects cost).carries (fun _ ids ascends => .ofIds ascends ids)
      fun _ _ holds => holds.state
  refine ⟨fun _ _ limit => carried _ _ limit, fun _ _ limit => carried _ _ limit,
    fun _ _ limit => carried _ _ limit, ?_⟩
  exact fun batch inside added member _ ascends =>
    ascends.addItem (gives.batches batch inside added member)

end

-----------------------------------------------------------------------------------------
-- Given values
-----------------------------------------------------------------------------------------

/-- A supplied value is ascending, as defaults are and what literals denote. -/
theorem VariableLayout.Supplies.ascends {layout : VariableLayout} {value : Value}
    (supplied : layout.Supplies value)
    : value.Ascends := by
  rcases supplied with rfl | ⟨literal, denoted⟩
  · exact Value.ascends_initial layout.decl.kind
  · exact Value.ascends_of_ofLiteral? denoted

theorem NewItem.Given.ascends {collections : List CollectionLayout} {added : NewItem}
    (given : added.Given collections)
    : added.item.Holds Value.Ascends := by
  obtain ⟨layout, row, _, built⟩ := given
  exact (CollectionLayout.filled_of_ofRow built).holds fun _ _ _ => Value.ascends_of_ofLiteral?

/-- The schema of a problem gives ascending values only, for they are defaults or come from
literals. That covers constants, variables, items of the start and of the batches.
-/
theorem Schema.givesAscending_of_ofProblem {domain : Domain} {problem : Problem} {schema : Schema}
    (laid : ofProblem domain problem = .ok schema)
    : schema.GivesAscending := by
  obtain ⟨_, _, laid⟩ := bind_eq_ok_iff.mp laid
  obtain ⟨entities, _, laid⟩ := bind_eq_ok_iff.mp laid
  obtain ⟨tables, tablesLaid, laid⟩ := bind_eq_ok_iff.mp laid
  obtain ⟨_, _, laid⟩ := bind_eq_ok_iff.mp laid
  obtain ⟨items, itemsLaid, laid⟩ := bind_eq_ok_iff.mp laid
  obtain ⟨batches, batchesLaid, done⟩ := bind_eq_ok_iff.mp laid
  obtain rfl := Except.ok.inj done
  have tablesAscend : ∀ table ∈ tables, ∀ value ∈ table.values, value.Ascends :=
    fun table inside value member =>
      (((VariableTable.of_ofDecls tablesLaid).2 table inside).2 value member).ascends
  refine ⟨?_, ?_, ?_⟩
  · exact fun table inside => tablesAscend table (List.mem_filter.mp inside).1
  · refine State.Ascends.addItems ⟨?_, ?_⟩ fun added member =>
      (NewItem.given_of_ofEntries itemsLaid added member).ascends
    · intro values inside
      obtain ⟨table, among, rfl⟩ := List.mem_map.mp inside
      exact tablesAscend table (List.mem_filter.mp among).1
    · intro items inside
      obtain ⟨_, _, rfl⟩ := List.mem_map.mp inside
      exact .empty
  · exact fun batch inside added member =>
      (NewItem.given_of_ofBatches batchesLaid batch inside added member).ascends

-----------------------------------------------------------------------------------------
-- Whole simulations
-----------------------------------------------------------------------------------------

namespace Simulation

variable {domain : Domain} {problem : Problem} {schema : Schema} {config : RunConfig}
  {progress : Progress}

/-- Whatever joint steps and arrivals are called in the simulation of a problem, the state stays
ascending, as it is so at the start.
-/
theorem ascends_of_calls (laid : Schema.ofProblem domain problem = .ok schema)
    (called
      : Relation.ReflTransGen (ofDomain domain schema config).Calls
          (ofDomain domain schema config).start progress)
    : progress.state.Ascends :=
  have gives := Schema.givesAscending_of_ofProblem laid
  (gives.maintains domain).calls called gives.initial

/-- Wherever a simulation comes, an expression about ids whose value is a set has the value of the
finite set of its elements. The laws of finite sets then apply to it.
-/
theorem eval_eq_ofSet_of_calls (laid : Schema.ofProblem domain problem = .ok schema)
    (called
      : Relation.ReflTransGen (ofDomain domain schema config).Calls
          (ofDomain domain schema config).start progress)
    {ids : List Int} {expr : Expr} {elements : List Int}
    (evaluated : expr.eval schema ⟨progress.state, .ofIds ids⟩ = .ok (.set elements))
    : expr.eval schema ⟨progress.state, .ofIds ids⟩ = .ok (.ofSet elements.toFinset) := by
  have constants := (Schema.givesAscending_of_ofProblem laid).constants
  have holds := Store.HoldsAscending.ofIds (ascends_of_calls laid called) ids
  exact Expr.eval_eq_ofSet (holds.ascends constants) evaluated

end Simulation

end Dispatch
