import Dispatch.Proofs.Execution.AppliedActions
import Dispatch.Proofs.Execution.RunDependence
import Dispatch.Proofs.Layout.LiveIds
import Dispatch.Simulation

/-!
Independent actions commute. The footprint of an action is the cells of the state that it reads or
changes: applying the action depends on its footprint and changes nothing outside. So where neither
of two actions changes a cell in the footprint of the other, a joint step may apply them in either
order.
-/

namespace Dispatch

namespace GroundAction

/-- The cells that an action reads in its conflicting conditions, its effects and its cost. -/
def reads (action : GroundAction) (schema : Schema) : List Cell :=
  Expr.readsAll schema action.template.conflicts.order
    ++ (Update.readsAll schema action.template.decl.effects
      ++ action.template.decl.cost.reads schema)

/-- The cells that the effects and the cost of an action may change. -/
def changes (action : GroundAction) : List Cell :=
  Update.changesAll action.template.decl.effects ++ action.template.decl.cost.changes

def footprint (action : GroundAction) (schema : Schema) : List Cell :=
  action.reads schema ++ action.changes

/-- Neither action changes a cell that the other reads or changes. -/
structure Independent (schema : Schema) (first second : GroundAction) : Prop where
  first_spares : ∀ cell ∈ first.changes, cell ∉ second.footprint schema
  second_spares : ∀ cell ∈ second.changes, cell ∉ first.footprint schema

instance (schema : Schema) (first second : GroundAction)
    : Decidable (Independent schema first second) :=
  decidable_of_iff
    ((∀ cell ∈ first.changes, cell ∉ second.footprint schema)
      ∧ ∀ cell ∈ second.changes, cell ∉ first.footprint schema)
    ⟨fun ⟨left, right⟩ => ⟨left, right⟩, fun ⟨left, right⟩ => ⟨left, right⟩⟩

variable {schema : Schema} {limit : Nat} {action first second : GroundAction}

/-- Independence does not depend on the order of the two actions: what each changes lies outside the
footprint of the other.
-/
theorem Independent.symm (independent : Independent schema first second)
    : Independent schema second first :=
  ⟨independent.second_spares, independent.first_spares⟩

theorem mem_footprint_of_changes {cell : Cell} (changed : cell ∈ action.changes)
    : cell ∈ action.footprint schema :=
  List.mem_append_right _ changed

-----------------------------------------------------------------------------------------
-- One action in two states
-----------------------------------------------------------------------------------------

section

variable {left right : State}

/-- The conflicting conditions of an action come to the same in two states with the same footprint,
as the footprint holds all that they read.
-/
theorem isCompatible_agree (same : ∀ cell ∈ action.footprint schema, left.SameAt right cell)
    : action.isCompatible schema left = action.isCompatible schema right := by
  have agree
      : Store.Agree Set.univ {cell | cell ∈ action.footprint schema} (action.store left)
          (action.store right) :=
    ⟨fun _ _ => rfl, same⟩
  rw [isCompatible, isCompatible, Bool.eq_iff_iff, List.all_eq_true, List.all_eq_true]
  refine forall₂_congr fun condition member => ?_
  have read : ∀ cell ∈ condition.reads schema, cell ∈ action.footprint schema := by
    intro cell found
    refine List.mem_append_left _ (List.mem_append_left _ ?_)
    exact Expr.mem_readsAll_iff.mpr ⟨condition, member, found⟩
  rw [Expr.holds, Expr.holds, agree.evalBool (fun _ _ => trivial) read]

/-- In two states with the same footprint, an action has one failure and leaves both states, or one
cost and next states with the same footprint.
-/
theorem apply_agree (limit : Nat)
    (same : ∀ cell ∈ action.footprint schema, left.SameAt right cell)
    : (∃ failure, action.apply schema limit left = (left, .error failure)
          ∧ action.apply schema limit right = (right, .error failure))
      ∨ ∃ cost nextLeft nextRight,
          action.apply schema limit left = (nextLeft, .ok cost)
          ∧ action.apply schema limit right = (nextRight, .ok cost)
          ∧ ∀ cell ∈ action.footprint schema, nextLeft.SameAt nextRight cell := by
  have alike
      : Execution.Alike (Store.Agree Set.univ {cell | cell ∈ action.footprint schema})
          (runWithCost schema limit action.template.decl.effects action.template.decl.cost)
          (Store.Agree Set.univ {cell | cell ∈ action.footprint schema}) := by
    refine runWithCost_alike limit (fun _ _ => trivial) (fun cell read => ?_) fun cell changed => ?_
    · exact List.mem_append_left _ (List.mem_append_right _ read)
    · exact mem_footprint_of_changes changed
  have both := isCompatible_agree same
  cases compatible : action.isCompatible schema right with
  | false =>
      exact Or.inl ⟨.conflicting, apply_of_not_isCompatible limit (both.trans compatible),
        apply_of_not_isCompatible limit compatible⟩
  | true =>
      have start
          : Store.Agree Set.univ {cell | cell ∈ action.footprint schema}
              ⟨left, .ofIds action.ids⟩ ⟨right, .ofIds action.ids⟩ :=
        ⟨fun _ _ => rfl, same⟩
      rcases alike.finish start with
        ⟨halt, ranLeft, ranRight⟩ | ⟨cost, _, _, agree, ranLeft, ranRight⟩
      · exact Or.inl ⟨.halted halt,
          apply_of_run_error (both.trans compatible) (Prod.ext rfl ranLeft),
          apply_of_run_error compatible (Prod.ext rfl ranRight)⟩
      · exact Or.inr ⟨cost, _, _, apply_of_run_ok (both.trans compatible) ranLeft,
          apply_of_run_ok compatible ranRight, agree.cells⟩

end

/-- An applied action leaves every cell as it was that it does not change, by the frame rule for its
run.
-/
theorem sameAt_of_apply {state next : State} {cost : Int} {cell : Cell}
    (applied : action.apply schema limit state = (next, .ok cost)) (spared : cell ∉ action.changes)
    : next.SameAt state cell := by
  obtain ⟨_, ran⟩ := ran_of_apply applied
  exact sameAt_of_runWithCost spared ran

-----------------------------------------------------------------------------------------
-- Two independent actions
-----------------------------------------------------------------------------------------

section

variable {state afterFirst afterSecond : State} {firstCost secondCost : Int}

/-- An action that is independent of an applied one fails after it as it would before, or has the
same cost: the applied action has left its footprint as it was.
-/
theorem apply_after (independent : Independent schema first second)
    (applied : first.apply schema limit state = (afterFirst, .ok firstCost))
    : (∃ failure, second.apply schema limit state = (state, .error failure)
          ∧ second.apply schema limit afterFirst = (afterFirst, .error failure))
      ∨ ∃ secondCost afterSecond final,
          second.apply schema limit state = (afterSecond, .ok secondCost)
          ∧ second.apply schema limit afterFirst = (final, .ok secondCost)
          ∧ ∀ cell ∈ second.footprint schema, afterSecond.SameAt final cell := by
  refine apply_agree limit fun cell inside => ?_
  have spared : cell ∉ first.changes := fun changed => independent.first_spares cell changed inside
  exact (sameAt_of_apply applied spared).symm

/-- An action that fails fails in the same way after an independent action. -/
theorem apply_error_after {failure : ActionFailure} (independent : Independent schema first second)
    (applied : first.apply schema limit state = (afterFirst, .ok firstCost))
    (failed : second.apply schema limit state = (state, .error failure))
    : second.apply schema limit afterFirst = (afterFirst, .error failure) := by
  rcases apply_after independent applied with ⟨other, before, after⟩ | ⟨_, _, _, succeeded, _⟩
  · rw [failed] at before
    rw [after, (Prod.mk.inj before).2]
  · rw [failed] at succeeded
    cases (Prod.mk.inj succeeded).2

/-- An action that succeeds succeeds after an independent action, with the same cost. -/
theorem apply_ok_after (independent : Independent schema first second)
    (applied : first.apply schema limit state = (afterFirst, .ok firstCost))
    (succeeded : second.apply schema limit state = (afterSecond, .ok secondCost))
    : ∃ final, second.apply schema limit afterFirst = (final, .ok secondCost)
        ∧ ∀ cell ∈ second.footprint schema, afterSecond.SameAt final cell := by
  rcases apply_after independent applied with ⟨_, failed, _⟩ | ⟨_, _, final, before, after, same⟩
  · rw [succeeded] at failed
    cases (Prod.mk.inj failed).2
  · rw [succeeded] at before
    cases before
    exact ⟨final, after, same⟩

/-- Independent actions that both succeed in a state succeed in either order, with the same costs
and in the same final state.

The final states are equal cell by cell. A cell that the first action changes is one of its
footprint, where the second has no part; a cell that neither changes is as in the beginning.
-/
theorem apply_swap (independent : Independent schema first second)
    (firstApplied : first.apply schema limit state = (afterFirst, .ok firstCost))
    (secondApplied : second.apply schema limit state = (afterSecond, .ok secondCost))
    : ∃ final, second.apply schema limit afterFirst = (final, .ok secondCost)
        ∧ first.apply schema limit afterSecond = (final, .ok firstCost) := by
  obtain ⟨final, secondLast, secondSame⟩ := apply_ok_after independent firstApplied secondApplied
  obtain ⟨other, firstLast, firstSame⟩ :=
    apply_ok_after independent.symm secondApplied firstApplied
  have same : final = other := by
    refine State.eq_of_sameAt fun cell => ?_
    -- A cell is changed by the first action alone, by the second alone, or by neither.
    by_cases byFirst : cell ∈ first.changes
    · have inside : cell ∈ first.footprint schema := mem_footprint_of_changes byFirst
      have spared : cell ∉ second.changes := fun bySecond =>
        independent.second_spares cell bySecond inside
      exact (sameAt_of_apply secondLast spared).trans (firstSame cell inside)
    · have kept : other.SameAt afterSecond cell := sameAt_of_apply firstLast byFirst
      by_cases bySecond : cell ∈ second.changes
      · have inside : cell ∈ second.footprint schema := mem_footprint_of_changes bySecond
        exact (kept.trans (secondSame cell inside)).symm
      · have forward : final.SameAt state cell :=
          (sameAt_of_apply secondLast bySecond).trans (sameAt_of_apply firstApplied byFirst)
        have backward : other.SameAt state cell :=
          kept.trans (sameAt_of_apply secondApplied bySecond)
        exact forward.trans backward.symm
  subst same
  exact ⟨final, secondLast, firstLast⟩

end

end GroundAction

namespace Simulation

open GroundAction

/-- Independent actions commute: a joint step that applies two of them, in either order, reaches the
same state, and has the same applied actions with their costs and the same rejected actions with
their failures.
-/
theorem applyAll_swap (simulation : Simulation) (state : State) {first second : GroundAction}
    (independent : Independent simulation.schema first second)
    : (simulation.applyAll state [first, second]).1 = (simulation.applyAll state [second, first]).1
      ∧ (simulation.applyAll state [first, second]).2.applied.Perm
          (simulation.applyAll state [second, first]).2.applied
      ∧ (simulation.applyAll state [first, second]).2.rejected.Perm
          (simulation.applyAll state [second, first]).2.rejected := by
  rcases firstRan : first.apply simulation.schema simulation.roundLimit state
    with ⟨afterFirst, failure | cost⟩
  · obtain rfl := state_of_apply_error firstRan
    rcases secondRan : second.apply simulation.schema simulation.roundLimit afterFirst
      with ⟨afterSecond, other | cost⟩
    · obtain rfl := state_of_apply_error secondRan
      simp [applyAll, firstRan, secondRan, List.Perm.swap]
    · have last := apply_error_after independent.symm secondRan firstRan
      simp [applyAll, firstRan, secondRan, last]
  · rcases secondRan : second.apply simulation.schema simulation.roundLimit state
      with ⟨afterSecond, failure | other⟩
    · obtain rfl := state_of_apply_error secondRan
      have last := apply_error_after independent firstRan secondRan
      simp [applyAll, firstRan, secondRan, last]
    · obtain ⟨final, secondLast, firstLast⟩ := apply_swap independent firstRan secondRan
      simp [applyAll, firstRan, secondRan, secondLast, firstLast, List.Perm.swap]

/-- A yard with two trucks, fuel for all of them, and crates that come and go. -/
def yard : Simulation where
  schema := {
    entities := [⟨"Truck", none, .positional 2⟩, ⟨"Crate", none, .dynamic 0⟩]
    constants := []
    mutables := [⟨⟨"fuel", .int, false, none, none, 0, 1⟩, 1⟩]
    collections := [⟨"Crate", 1, []⟩]
    names := [("fuel", .var 0)]
    initial := ⟨[#[.int 5]], [.numbered [⟨[], []⟩, ⟨[], []⟩]]⟩
    batches := [] }
  templates := []
  environment := []
  arrival := []
  config := ⟨1, 0, true⟩
  roundLimit := 1

/-- The second truck burns its number in fuel, as long as there is fuel. -/
def driving : GroundAction where
  template := .ofDecl {
    name := "Drive", base := none, parent := none, parameters := [⟨"t", 0⟩], preconditions := []
    conflicts := [.binary .less (.int 0) (.read (.var 0) "fuel" (.int 0))]
    effects :=
      [.assign (.var 0) "fuel" (.int 0)
        (.binary .sub (.read (.var 0) "fuel" (.int 0)) (.param 0 "t"))]
    cost := ⟨[], .read (.var 0) "fuel" (.int 0)⟩, line := 1 }
  ids := [1]

/-- The first truck takes away all crates and leaves a new one. -/
def clearing : GroundAction where
  template := .ofDecl {
    name := "Clear", base := none, parent := none, parameters := [⟨"t", 0⟩], preconditions := []
    conflicts := [.isLive 1 "Crate" (.param 0 "t")]
    effects :=
      [.insert 1 0 [], .forEach 1 "c" 1 none [.remove 1 0 (.param 1 "c")]]
    cost := .zero, line := 2 }
  ids := [0]

/-- Driving and clearing are independent, so in either order they leave less fuel and the new
crate alone.
-/
theorem applyAll_swap_in_yard
    : Independent yard.schema driving clearing
      ∧ (yard.applyAll yard.schema.initial [driving, clearing]).1
        = (yard.applyAll yard.schema.initial [clearing, driving]).1
      ∧ (yard.applyAll yard.schema.initial [driving, clearing]).1
        = ⟨[#[.int 4]], [⟨[(2, ⟨[], []⟩)], 3, by decide, by decide⟩]⟩ := by
  have independent : Independent yard.schema driving clearing := by decide +kernel
  exact ⟨independent, (applyAll_swap yard yard.schema.initial independent).1, by decide +kernel⟩

end Simulation

end Dispatch
