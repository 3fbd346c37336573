import Dispatch.Proofs.Execution.AppliedActions
import Dispatch.Proofs.Layout.LiveIds
import Dispatch.Simulation

/-!
Joint steps are serial. Each chosen action has its turn in the state that the actions before it
leave, and a rejected action leaves that state as it was, whatever it had changed when it failed. So
a joint step is the same as one in which only the applied actions were chosen.
-/

namespace Dispatch

-----------------------------------------------------------------------------------------
-- Attempts
-----------------------------------------------------------------------------------------

/-- The turn of a chosen action: the state that it met, and its cost or its failure. -/
structure Attempt where
  action : GroundAction
  state : State
  result : Except ActionFailure Int

namespace Attempt

/-- The action with its cost, if it was applied. -/
def applied? (attempt : Attempt) : Option Applied :=
  match attempt.result with
  | .ok cost => some ⟨attempt.action, cost⟩
  | .error _ => none

/-- The action with its failure, if it was rejected. -/
def rejected? (attempt : Attempt) : Option Rejected :=
  match attempt.result with
  | .ok _ => none
  | .error failure => some ⟨attempt.action, failure⟩

/-- Every attempt is applied or rejected, and none is both, by induction on the attempts. -/
theorem perm_actions (attempts : List Attempt)
    : ((attempts.filterMap applied?).map (·.action)
        ++ (attempts.filterMap rejected?).map (·.action)).Perm (attempts.map (·.action)) := by
  induction attempts with
  | nil => exact .nil
  | cons attempt rest ih =>
      obtain ⟨action, state, result⟩ := attempt
      cases result with
      | ok cost => exact ih.cons action
      | error failure =>
          simp only [List.filterMap_cons, applied?, rejected?, List.map_cons]
          exact List.perm_middle.trans (ih.cons action)

theorem sublist_of_applied (attempts : List Attempt)
    : ((attempts.filterMap applied?).map (·.action)).Sublist (attempts.map (·.action)) := by
  induction attempts with
  | nil => exact .slnil
  | cons attempt rest ih =>
      obtain ⟨action, state, result⟩ := attempt
      cases result with
      | ok cost => exact ih.cons_cons action
      | error failure => exact ih.cons action

theorem sublist_of_rejected (attempts : List Attempt)
    : ((attempts.filterMap rejected?).map (·.action)).Sublist (attempts.map (·.action)) := by
  induction attempts with
  | nil => exact .slnil
  | cons attempt rest ih =>
      obtain ⟨action, state, result⟩ := attempt
      cases result with
      | ok cost => exact ih.cons action
      | error failure => exact ih.cons_cons action

end Attempt

namespace Simulation

/-- Attempts that follow on each other from one state to another: an applied action leads to its
next state, and a rejected one leads nowhere.
-/
inductive Tries (simulation : Simulation) : State → List Attempt → State → Prop
  | nil {state : State} : Tries simulation state [] state
  | applied {state next final : State} {action : GroundAction} {cost : Int}
    {attempts : List Attempt}
    (success : action.apply simulation.schema simulation.roundLimit state = (next, .ok cost))
    (rest : Tries simulation next attempts final)
    : Tries simulation state (⟨action, state, .ok cost⟩ :: attempts) final
  | rejected {state final : State} {action : GroundAction} {failure : ActionFailure}
    {attempts : List Attempt}
    (refused : action.apply simulation.schema simulation.roundLimit state = (state, .error failure))
    (rest : Tries simulation state attempts final)
    : Tries simulation state (⟨action, state, .error failure⟩ :: attempts) final

/-- Actions that are applied one after the other, each with its cost, and none of which fails. -/
inductive Applies (simulation : Simulation) : State → List Applied → State → Prop
  | nil {state : State} : Applies simulation state [] state
  | cons {state next final : State} {action : GroundAction} {cost : Int} {applied : List Applied}
    (success : action.apply simulation.schema simulation.roundLimit state = (next, .ok cost))
    (rest : Applies simulation next applied final)
    : Applies simulation state (⟨action, cost⟩ :: applied) final

/-- The attempts give each chosen action its turn, from a state to the last one, and the outcome
tells of them in their order.
-/
structure Attempts (simulation : Simulation) (state : State) (chosen : List GroundAction)
    (attempts : List Attempt) (final : State) (outcome : Outcome) : Prop where
  tries : simulation.Tries state attempts final
  actions : attempts.map (·.action) = chosen
  applied : outcome.applied = attempts.filterMap Attempt.applied?
  rejected : outcome.rejected = attempts.filterMap Attempt.rejected?

variable {simulation : Simulation}

/-- Applying actions one after the other gives each its turn, by induction on the actions.

Each acts on the state that the one before it left. After a rejected action that is the state which
this one met, since an action that fails leaves the state it began with.
-/
theorem attempts_of_applyAll (simulation : Simulation) (state : State)
    (chosen : List GroundAction)
    : ∃ attempts, simulation.Attempts state chosen attempts (simulation.applyAll state chosen).1
        (simulation.applyAll state chosen).2 := by
  induction chosen generalizing state with
  | nil => exact ⟨[], .nil, rfl, rfl, rfl⟩
  | cons action rest ih =>
      rcases tried : action.apply simulation.schema simulation.roundLimit state
        with ⟨next, failure | cost⟩
      · obtain rfl := GroundAction.state_of_apply_error tried
        obtain ⟨attempts, told⟩ := ih next
        rw [applyAll, tried]
        refine ⟨⟨action, next, .error failure⟩ :: attempts, .rejected tried told.tries, ?_, ?_, ?_⟩
        · rw [List.map_cons, told.actions]
        · exact told.applied
        · exact congrArg (⟨action, failure⟩ :: ·) told.rejected
      · obtain ⟨attempts, told⟩ := ih next
        rw [applyAll, tried]
        refine ⟨⟨action, state, .ok cost⟩ :: attempts, .applied tried told.tries, ?_, ?_, ?_⟩
        · rw [List.map_cons, told.actions]
        · exact congrArg (⟨action, cost⟩ :: ·) told.applied
        · exact told.rejected

/-- The applied actions alone lead to where all attempts lead, by induction on the attempts. A
rejected one does not move the state, so it can be left out.
-/
theorem Tries.applies {state final : State} {attempts : List Attempt}
    (tries : simulation.Tries state attempts final)
    : simulation.Applies state (attempts.filterMap Attempt.applied?) final := by
  induction tries with
  | nil => exact .nil
  | applied success _ ih => exact .cons success ih
  | rejected _ _ ih => exact ih

/-- Actions none of which fails are all applied when they are chosen, by induction on them. -/
theorem Applies.applyAll {state final : State} {applied : List Applied}
    (applies : simulation.Applies state applied final)
    : simulation.applyAll state (applied.map (·.action)) = (final, ⟨applied, [], 0⟩) := by
  induction applies with
  | nil => rfl
  | cons success _ ih =>
      rw [List.map_cons, Simulation.applyAll, success]
      simp only [ih]

-----------------------------------------------------------------------------------------
-- Joint steps
-----------------------------------------------------------------------------------------

/-- A joint step consists of the attempts and of the environment steps, which run in the state that
the attempts lead to. It fails only where these steps do.
-/
theorem attempts_of_transition {state next : State} {chosen : List GroundAction}
    {outcome : Outcome} (moved : simulation.transition state chosen = .ok (next, outcome))
    : ∃ attempts final, simulation.Attempts state chosen attempts final outcome
        ∧ simulation.runSteps final 0 simulation.environment
          = .ok (next, outcome.environmentCost) := by
  obtain ⟨⟨reached, cost⟩, ran, done⟩ := bind_eq_ok_iff.mp moved
  obtain ⟨rfl, rfl⟩ := Prod.mk.inj (Except.ok.inj done)
  obtain ⟨attempts, told⟩ := attempts_of_applyAll simulation state chosen
  exact ⟨attempts, _, ⟨told.tries, told.actions, told.applied, told.rejected⟩, ran⟩

/-- When all chosen actions are applied, the environment steps follow and nothing is rejected. -/
theorem Applies.transition {state middle next : State} {applied : List Applied} {cost : Int}
    (applies : simulation.Applies state applied middle)
    (ran : simulation.runSteps middle 0 simulation.environment = .ok (next, cost))
    : simulation.transition state (applied.map (·.action))
      = .ok (next, ⟨applied, [], cost⟩) := by
  unfold Simulation.transition
  rw [applies.applyAll]
  simp only [ran]
  rfl

/-- Joint steps are serial, and rejected actions leave no trace. The applied and the rejected
actions are together the chosen ones, each once and in their order; the next state is that of
applying the applied actions alone and of running the environment steps after them; and a joint step
from the same state in which only the applied actions are chosen has the same next state, the same
applied actions with their costs and the same cost of the environment steps, and rejects none.
-/
theorem serial_of_transition {state next : State} {chosen : List GroundAction} {outcome : Outcome}
    (moved : simulation.transition state chosen = .ok (next, outcome))
    : ((outcome.applied.map (·.action) ++ outcome.rejected.map (·.action)).Perm chosen
        ∧ (outcome.applied.map (·.action)).Sublist chosen
        ∧ (outcome.rejected.map (·.action)).Sublist chosen)
      ∧ (∃ middle, simulation.Applies state outcome.applied middle
          ∧ simulation.runSteps middle 0 simulation.environment
            = .ok (next, outcome.environmentCost))
      ∧ simulation.transition state (outcome.applied.map (·.action))
        = .ok (next, { outcome with rejected := [] }) := by
  obtain ⟨attempts, middle, told, ran⟩ := attempts_of_transition moved
  have applies : simulation.Applies state outcome.applied middle := by
    rw [told.applied]
    exact told.tries.applies
  refine ⟨?_, ⟨middle, applies, ran⟩, applies.transition ran⟩
  rw [told.applied, told.rejected, ← told.actions]
  exact ⟨Attempt.perm_actions attempts, Attempt.sublist_of_applied attempts,
    Attempt.sublist_of_rejected attempts⟩

/-- A dock at which crates are unloaded, as long as there are fewer than three of them, and where a
crate of its own arrives after every joint step.
-/
def dock : Simulation where
  schema := {
    entities := [⟨"Crane", none, .positional 4⟩, ⟨"Crate", none, .dynamic 0⟩]
    constants := []
    mutables := []
    collections := [⟨"Crate", 1, [⟨"weight", .int, false, 0⟩]⟩]
    names := [("weight", .field 0 0 false)]
    initial := ⟨[], [.empty]⟩
    batches := [] }
  templates := []
  environment := [⟨"Drift", [.insert 1 0 [.int 0]], .zero, 9⟩]
  arrival := []
  config := ⟨1, 0, true⟩
  roundLimit := 1

/-- A crane unloads a crate that weighs as much as the number of the crane, and costs twelve divided
by that; while the second crate is there, it does nothing.
-/
def unloading (crane : Int) : GroundAction where
  template := .ofDecl {
    name := "Unload", base := none, parent := none, parameters := [⟨"c", 0⟩], preconditions := []
    conflicts := [.not (.isLive 1 "Crate" (.int 1))]
    effects := [.insert 1 0 [.param 0 "c"]]
    cost := ⟨[], .binary .div (.int 12) (.param 0 "c")⟩, line := 1 }
  ids := [crane]

/-- Witness: the crane without a number fails after it has unloaded its crate, and the last crane is
refused. The crates of the others have the ids zero and one, as if these had been chosen alone.
-/
theorem serial_of_transition_at_dock
    : ∃ next outcome,
        dock.transition dock.schema.initial ([2, 0, 3, 1].map unloading) = .ok (next, outcome)
        ∧ next = ⟨[], [.numbered [⟨[], [.int 2]⟩, ⟨[], [.int 3]⟩, ⟨[], [.int 0]⟩]]⟩
        ∧ outcome.applied.map (·.cost) = [6, 4]
        ∧ outcome.rejected.map (·.failure) = [.halted (.failed .divisionByZero), .conflicting]
        ∧ dock.transition dock.schema.initial (outcome.applied.map (·.action))
          = .ok (next, { outcome with rejected := [] }) := by
  have shape
      : (dock.transition dock.schema.initial ([2, 0, 3, 1].map unloading)).toOption.map
          (fun result =>
            (result.1, result.2.applied.map (·.cost), result.2.rejected.map (·.failure)))
        = some (⟨[], [.numbered [⟨[], [.int 2]⟩, ⟨[], [.int 3]⟩, ⟨[], [.int 0]⟩]]⟩, [6, 4],
            [.halted (.failed .divisionByZero), .conflicting]) := by
    decide +kernel
  obtain ⟨⟨next, outcome⟩, moved, same⟩ := Option.map_eq_some_iff.mp shape
  simp only [Prod.mk.injEq] at same
  obtain ⟨reached, costs, failures⟩ := same
  have moved := ok_of_toOption moved
  exact ⟨next, outcome, moved, reached, costs, failures, (serial_of_transition moved).2.2⟩

end Simulation

end Dispatch
