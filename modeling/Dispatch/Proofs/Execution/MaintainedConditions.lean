import Dispatch.Proofs.Declarations.DomainCoherence
import Dispatch.Proofs.Execution.AppliedActions
import Dispatch.Proofs.Execution.WholeRuns
import Dispatch.Proofs.Simulation.Calls

/-!
Conditions on states that all programs of a domain maintain. What the actions, the steps and the
items of the batches keep, a whole simulation keeps: its joint steps and the arrival of its batches.
A condition that survives each single change of a state is maintained by every coherent domain.
-/

namespace Dispatch

open Execution

/-- The computation maintains a condition on states, whether it succeeds or stops early. -/
abbrev Execution.Maintains {α : Type} (inv : State → Prop) (execution : Execution α) : Prop :=
  Meets (fun store => inv store.state) execution (fun _ store => inv store.state)
    (fun _ store => inv store.state)

/-- Runs that start with ids in slots and succeed carry a condition on states to their ends. -/
def Execution.Carries {α : Type} (inv : State → Prop) (execution : Execution α) : Prop :=
  ∀ state next ids value,
    execution.finish state (.ofIds ids) = (next, .ok value) → inv state → inv next

/-- A computation carries a condition on states that its conditions on stores follow from and lead
to.
-/
theorem Execution.Meets.carries {α : Type} {inv : State → Prop} {pre : Store → Prop}
    {post : α → Store → Prop} {fail : Halt → Store → Prop} {execution : Execution α}
    (meets : Meets pre execution post fail)
    (start : ∀ state ids, inv state → pre ⟨state, .ofIds ids⟩)
    (finish : ∀ value store, post value store → inv store.state)
    : Execution.Carries inv execution := by
  intro state next ids value finished holds
  obtain ⟨after, reached⟩ := meets.post_of_finish (start state ids holds) finished
  exact finish value _ reached

/-- A condition on states that the domain maintains: with any limit on the rounds of loops its
actions and its steps carry it, and the items of every batch may join without breaking it.
-/
structure Domain.Maintains (domain : Domain) (schema : Schema) (inv : State → Prop) : Prop where
  actions
    : ∀ decl ∈ domain.actions, ∀ limit,
        Execution.Carries inv (runWithCost schema limit decl.effects decl.cost)
  environment
    : ∀ step ∈ domain.environment, ∀ limit,
        Execution.Carries inv (runWithCost schema limit step.effects step.cost)
  arrival
    : ∀ step ∈ domain.arrival, ∀ limit,
        Execution.Carries inv (runWithCost schema limit step.effects step.cost)
  batches
    : ∀ batch ∈ schema.batches, ∀ added ∈ batch, ∀ state, inv state → inv (state.addItem added)

/-- A coherent domain maintains a condition on states that running scoped effects keeps.

All its actions and steps are scoped, whichever parent they inherit from, so what running scoped
effects keeps is kept by each of them. What joins with a batch is no effect and has to keep the
condition on its own.
-/
theorem Domain.Coherent.maintains {domain : Domain} {schema : Schema} {inv : State → Prop}
    {fail : Halt → Store → Prop} (coherent : domain.Coherent)
    (keeps : Update.Keeps schema domain.vocabulary (fun _ store => inv store.state) fail)
    (joined
      : ∀ batch ∈ schema.batches, ∀ added ∈ batch, ∀ state, inv state → inv (state.addItem added))
    : domain.Maintains schema inv := by
  have stepped {step : StepDecl} (known : step.WellScoped domain.vocabulary) (limit : Nat)
      : Execution.Carries inv (runWithCost schema limit step.effects step.cost) :=
    (keeps.runWithCost limit known.effects known.cost).carries (fun _ _ kept => kept)
      fun _ _ kept => kept
  refine ⟨?_, ?_, ?_, joined⟩
  · intro decl declared limit
    have parts := (coherent.actions decl declared).inherited
    obtain ⟨_, _, costKnown⟩ := parts.cost
    refine (Meets.runWithCost ?_ (keeps.cost limit costKnown)).carries (fun _ _ kept => kept)
      fun _ _ kept => kept
    intro update member
    obtain ⟨_, _, known⟩ := parts.effects update member
    exact keeps.run limit update known
  · exact fun step member => stepped (coherent.environment step member)
  · exact fun step member => stepped (coherent.arrival step member)

-----------------------------------------------------------------------------------------
-- Simulations
-----------------------------------------------------------------------------------------

section

variable {simulation : Simulation} {inv : State → Prop} {state next : State}

/-- Steps that run one after the other carry what each of them carries, by induction on them: each
starts from what the one before has left.
-/
theorem Simulation.maintains_of_runSteps {steps : List StepDecl} {total cost : Int}
    (each
      : ∀ step ∈ steps, Execution.Carries inv
          (runWithCost simulation.schema simulation.roundLimit step.effects step.cost))
    (ran : simulation.runSteps state total steps = .ok (next, cost)) (start : inv state)
    : inv next := by
  induction steps generalizing state total with
  | nil =>
      obtain ⟨rfl, rfl⟩ := Prod.mk.inj (Except.ok.inj ran)
      exact start
  | cons step rest ih =>
      obtain ⟨first, others⟩ := List.forall_mem_cons.mp each
      unfold runSteps at ran
      split at ran
      · cases ran
      · rename_i finished
        exact ih others ran (first state _ [] _ finished start)

/-- Items that join one after the other maintain what each of them maintains, by induction on them.
-/
theorem Simulation.maintains_of_addBatch {batch : Nat} {added : List NewItem}
    (each : ∀ one ∈ added, ∀ state, inv state → inv (state.addItem one))
    (joined : addBatch batch state added = .ok next) (start : inv state)
    : inv next := by
  induction added generalizing state with
  | nil =>
      obtain rfl := Except.ok.inj joined
      exact start
  | cons first rest ih =>
      obtain ⟨firstKeeps, others⟩ := List.forall_mem_cons.mp each
      unfold addBatch at joined
      split at joined
      · exact ih others joined (firstKeeps state start)
      · cases joined

end

namespace Domain.Maintains

variable {domain : Domain} {schema : Schema} {inv : State → Prop} {config : RunConfig}
  {state next : State}

/-- An action maintains the condition, whether it is applied or fails: it leaves what its run has
made of the state, or the state itself.
-/
theorem apply (maintains : domain.Maintains schema inv) {action : GroundAction} (limit : Nat)
    (declared : ∃ decl ∈ domain.actions, action.template = .ofDecl decl) (start : inv state)
    : inv (action.apply schema limit state).1 := by
  obtain ⟨decl, member, same⟩ := declared
  rcases tried : action.apply schema limit state with ⟨next, failure | cost⟩
  · obtain rfl := GroundAction.state_of_apply_error tried
    exact start
  · obtain ⟨_, ran⟩ := GroundAction.ran_of_apply tried
    rw [GroundAction.run, same] at ran
    exact maintains.actions decl member limit state next action.ids cost ran start

/-- Actions that are applied one after the other maintain the condition, by induction on them. -/
theorem applyAll (maintains : domain.Maintains schema inv) {chosen : List GroundAction}
    (declared : ∀ action ∈ chosen, ∃ decl ∈ domain.actions, action.template = .ofDecl decl)
    (start : inv state)
    : inv ((Simulation.ofDomain domain schema config).applyAll state chosen).1 := by
  induction chosen generalizing state with
  | nil => exact start
  | cons action rest ih =>
      obtain ⟨first, others⟩ := List.forall_mem_cons.mp declared
      have kept := ih others (maintains.apply roundLimit first start)
      unfold Simulation.applyAll
      dsimp only
      split <;> exact kept

/-- A joint step maintains the condition: its actions are applied, and then the environment steps
run.
-/
theorem transition (maintains : domain.Maintains schema inv) {chosen : List GroundAction}
    {outcome : Outcome}
    (declared : ∀ action ∈ chosen, ∃ decl ∈ domain.actions, action.template = .ofDecl decl)
    (moved
      : (Simulation.ofDomain domain schema config).transition state chosen = .ok (next, outcome))
    (start : inv state)
    : inv next := by
  unfold Simulation.transition at moved
  obtain ⟨⟨final, cost⟩, ran, done⟩ := bind_eq_ok_iff.mp moved
  obtain ⟨rfl, rfl⟩ := Prod.mk.inj (Except.ok.inj done)
  exact Simulation.maintains_of_runSteps (fun step member => maintains.environment step member _)
    ran (maintains.applyAll declared start)

/-- The arrival of a batch maintains the condition: its items join, and then the arrival steps run.
-/
theorem advance? (maintains : domain.Maintains schema inv) {progress later : Progress}
    (arrived : (Simulation.ofDomain domain schema config).advance? progress = .ok (some later))
    (start : inv progress.state)
    : inv later.state := by
  obtain ⟨batch, joined, _, found, added, ran, _⟩ := Simulation.batch_of_advance? arrived
  have full : inv joined :=
    Simulation.maintains_of_addBatch (maintains.batches batch (List.mem_of_getElem? found)) added
      start
  exact Simulation.maintains_of_runSteps (fun step member => maintains.arrival step member _) ran
    full

end Domain.Maintains

-----------------------------------------------------------------------------------------
-- Single changes
-----------------------------------------------------------------------------------------

namespace Execution.Maintains

variable {schema : Schema} {inv : State → Prop}

theorem look {α : Type} (look : Store → Except EvalError α)
    : Execution.Maintains inv (observe look) :=
  .peek look

/-- A checked change maintains a condition that survives the change. -/
theorem change (check : State → Except EvalError Unit) {next : State → State}
    (survives : ∀ state, inv state → inv (next state))
    : Execution.Maintains inv (Execution.change check next) :=
  Meets.change (fun _ kept _ _ => kept) fun store kept _ => survives store.state kept

/-- An assignment to a place maintains a condition that survives writing to the place. -/
theorem assign {place : Place} {name : String} {index value : Expr} (limit : Nat)
    (survives : ∀ state id found, inv state → inv (state.write place id found))
    : Execution.Maintains inv ((Update.assign place name index value).run schema limit) := by
  rw [Update.run]
  refine .bind (look _) fun position => .bind (look _) fun found => change _ ?_
  exact fun state => survives state position found

/-- The replacement of an item maintains a condition that survives giving an id another item. -/
theorem replace {entity collection : Nat} {id : Expr} {fields : List Expr} (limit : Nat)
    (survives
      : ∀ state id item, inv state → inv (state.modifyCollection collection (·.replace id item)))
    : Execution.Maintains inv ((Update.replace entity collection id fields).run schema limit) := by
  rw [Update.run]
  refine .bind (look _) fun found => .bind (look _) fun item => change _ ?_
  exact fun state => survives state found item

end Execution.Maintains

/-- A condition on states that survives every single change that an effect makes. -/
structure State.Survives (inv : State → Prop) : Prop where
  write : ∀ state place index value, inv state → inv (state.write place index value)
  insert : ∀ state added, inv state → inv (state.addItem added)
  remove
    : ∀ state collection id, inv state → inv (state.modifyCollection collection (·.remove id))
  replace
    : ∀ state collection id item, inv state
        → inv (state.modifyCollection collection (·.replace id item))

/-- Running scoped effects keeps a condition that survives every change, by cases on the effects
that run no others.

Each of them looks at the store and then makes one checked change, of a kind that the condition
survives. The effects that run others follow from the rules for loops and branches.
-/
theorem State.Survives.keeps {inv : State → Prop} (survives : Survives inv) (schema : Schema)
    (vocabulary : Vocabulary)
    : Update.Keeps schema vocabulary (fun _ store => inv store.state)
        (fun _ store => inv store.state) where
  simple := by
    intro scope update limit _ simple
    cases update with
    | assign place name index value =>
        exact Execution.Maintains.assign limit fun state id found =>
          survives.write state place id found
    | assignLocal slot name value =>
        rw [Update.run]
        exact .bind (Execution.Maintains.look _) fun _ => .modify fun _ kept => kept
    | insert entity collection fields =>
        rw [Update.run]
        exact .bind (Execution.Maintains.look _) fun item =>
          Execution.Maintains.change _ fun state => survives.insert state ⟨collection, item⟩
    | remove entity collection id =>
        rw [Update.run]
        exact .bind (Execution.Maintains.look _) fun found =>
          Execution.Maintains.change _ fun state => survives.remove state collection found
    | replace entity collection id fields =>
        exact Execution.Maintains.replace limit fun state found item =>
          survives.replace state collection found item
    | bind | branch | forEach | loop => exact simple.elim
  permits kept := ⟨fun _ _ => kept, fun _ _ _ _ _ => kept, fun _ _ _ _ _ _ => kept⟩
  bind _ _ _ kept := kept
  unbind kept := kept
  shrink _ kept := kept
  endless kept := kept

/-- A coherent domain maintains every condition that survives all changes. -/
theorem State.Survives.maintains {inv : State → Prop} (survives : Survives inv) {domain : Domain}
    (coherent : domain.Coherent) (schema : Schema)
    : domain.Maintains schema inv :=
  coherent.maintains (survives.keeps schema domain.vocabulary)
    fun _ _ added _ state => survives.insert state added

end Dispatch
