import Dispatch.Proofs.Execution.MaintainedConditions
import Dispatch.Proofs.Execution.StateShape

/-!
The states that a loaded problem can come to are well formed. They arise from the initial state by
single effects, also where these stop early, by actions, by joint steps and by the arrival of
batches, in any order.
-/

namespace Dispatch

open Execution

/-- The store that a computation leaves, also where it stops early. -/
def Execution.leave {α : Type} (execution : Execution α) (store : Store) : Store :=
  match execution store with
  | .ok _ after => after
  | .error _ after => after

/-- A condition that is kept on success and on early stops holds of the store that is left,
whichever of the two it was.
-/
theorem Execution.Meets.leave {α : Type} {inv : Store → Prop} {fail : Halt → Store → Prop}
    {execution : Execution α} {store : Store}
    (meets : Meets inv execution (fun _ => inv) fail)
    (stopped : ∀ halt after, fail halt after → inv after) (start : inv store)
    : inv (execution.leave store) := by
  have reached := meets store start
  unfold Execution.leave
  cases ran : execution store with
  | ok value after =>
      rw [ran] at reached
      exact reached
  | error halt after =>
      rw [ran] at reached
      exact stopped halt after reached

/-- The states that a problem can come to: the initial state, and what effects that were read with
the vocabulary of the domain, its actions, joint steps and arriving batches make of such a state.
-/
inductive Reachable (domain : Domain) (schema : Schema) : State → Prop
  /-- The state before anything was run. -/
  | initial : Reachable domain schema schema.initial
  /-- An effect with any bindings; what it changed before it stopped early stays changed. -/
  | update {state : State} {scope after : Scope} {blocks : List Block} {updates : List Update}
    {update : Update} (reached : Reachable domain schema state)
    (read : Update.ofBlocks ⟨domain.vocabulary, scope⟩ blocks = .ok (updates, after))
    (member : update ∈ updates) (limit : Nat) (bindings : Bindings)
    : Reachable domain schema ((update.run schema limit).leave ⟨state, bindings⟩).state
  /-- An action of the domain with any ids, be it applied or not. -/
  | apply {state : State} {action : GroundAction} (reached : Reachable domain schema state)
    (declared : ∃ decl ∈ domain.actions, action.template = .ofDecl decl) (limit : Nat)
    : Reachable domain schema (action.apply schema limit state).1
  /-- A joint step with any chosen actions of the domain. -/
  | transition {state next : State} {chosen : List GroundAction} {outcome : Outcome}
    {config : RunConfig} (reached : Reachable domain schema state)
    (declared : ∀ action ∈ chosen, ∃ decl ∈ domain.actions, action.template = .ofDecl decl)
    (moved
      : (Simulation.ofDomain domain schema config).transition state chosen = .ok (next, outcome))
    : Reachable domain schema next
  /-- The arrival of the next batch. -/
  | advance {progress next : Progress} {config : RunConfig}
    (reached : Reachable domain schema progress.state)
    (arrived : (Simulation.ofDomain domain schema config).advance? progress = .ok (some next))
    : Reachable domain schema next.state

-----------------------------------------------------------------------------------------
-- Runs of a loaded domain
-----------------------------------------------------------------------------------------

namespace Loaded

variable {domain : Domain} {schema : Schema}

/-- Running a scoped effect of a loaded domain leaves the store well formed, whether it runs to the
end or stops early.
-/
theorem meets_update (loaded : Loaded domain schema) {scope : Scope} {update : Update}
    (resolved : update.Scoped ⟨domain.vocabulary, scope⟩) (limit : Nat)
    : Meets (Store.Formed schema) (update.run schema limit) (fun _ => Store.Formed schema)
        (Halt.StopsFormed schema) :=
  loaded.keeps_formed.run limit update resolved

/-- A step of a loaded domain leaves the store well formed, whether its effects and its cost run to
the end or stop early.
-/
theorem meets_step (loaded : Loaded domain schema) {step : StepDecl}
    (known : step.WellScoped domain.vocabulary) (limit : Nat)
    : Meets (Store.Formed schema) (runWithCost schema limit step.effects step.cost)
        (fun _ => Store.Formed schema) (Halt.StopsFormed schema) :=
  loaded.keeps_formed.runWithCost limit known.effects known.cost

/-- A loaded domain maintains that the state is well formed: its effects keep the shape, and an item
of a batch was laid out for the collection that it joins.
-/
theorem maintains_wellFormed (loaded : Loaded domain schema)
    : domain.Maintains schema (State.WellFormed schema) := by
  refine loaded.coherent.maintains loaded.keeps_formed ?_
  intro batch member added inside state formed
  exact formed.addItems (List.forall_mem_singleton.mpr
    (loaded.laysOut.batches batch member added inside))

/-- The items of a batch that fit leave a well-formed state, and all find their collections, by
induction on them.
-/
theorem addBatch_eq (batch : Nat) {added : List NewItem} {state : State}
    (formed : state.WellFormed schema) (fits : ∀ one ∈ added, one.Fits schema)
    : Simulation.addBatch batch state added = .ok (state.addItems added) := by
  induction added generalizing state with
  | nil => rfl
  | cons first rest ih =>
      obtain ⟨firstFits, others⟩ := List.forall_mem_cons.mp fits
      have next : (state.addItem first).WellFormed schema :=
        formed.addItems (List.forall_mem_singleton.mpr firstFits)
      obtain ⟨layout, known, _⟩ := firstFits
      obtain ⟨inside, _⟩ := List.getElem?_eq_some_iff.mp known
      rw [← formed.collections] at inside
      rw [Simulation.addBatch, if_pos inside, ih next others]
      rfl

/-- Every reachable state of a loaded domain is well formed, by induction on how it is reached.

The states within a run count as reachable, so the effect and the step have to keep the shape even
where they stop halfway.
-/
theorem wellFormed_of_reachable (loaded : Loaded domain schema) {state : State}
    (reached : Reachable domain schema state)
    : state.WellFormed schema := by
  induction reached with
  | initial => exact loaded.laysOut.initial
  | @update state scope after blocks updates update _ read member limit bindings formed =>
      have known := Update.bodyScoped_iff.mp (Update.scoped_of_ofBlocks _ _ read).1 update member
      exact (loaded.meets_update known limit).leave (fun _ _ stops => stops.1) formed
  | apply _ declared limit formed =>
      exact loaded.maintains_wellFormed.apply limit declared formed
  | transition _ declared moved formed =>
      exact loaded.maintains_wellFormed.transition declared moved formed
  | advance _ arrived formed => exact loaded.maintains_wellFormed.advance? arrived formed

end Loaded

-----------------------------------------------------------------------------------------
-- Accepted domains and problems
-----------------------------------------------------------------------------------------

/-- Whatever an accepted problem of an accepted domain comes to, the state has the shape that the
schema demands: every variable as many values of its kind as declared, every live item a value of
the right kind for each field, and no sequence anywhere.
-/
theorem Reachable.wellFormed_of_accepted {source : List Char} {domain : Domain} {problem : Problem}
    {schema : Schema} {state : State} (read : Domain.ofText source = .ok domain)
    (laid : Schema.ofProblem domain problem = .ok schema)
    (reached : Reachable domain schema state)
    : state.WellFormed schema ∧ state.StoresNoSequence := by
  have formed := (loaded_of_accepted read laid).wellFormed_of_reachable reached
  exact ⟨formed, formed.storesNoSequence⟩

def depotText : List Char :=
  ["Start Domain:", "Entities:", "Box", "End Entities", "Variables:", "var load INT",
    "items Box const size INT var full BOOL", "End Variables", "End Domain"].flatMap fun line =>
    line.toList ++ ['\n']

def depotProblem : Problem :=
  ⟨[⟨"load", [⟨none, .int 5, 1⟩], 1⟩, ⟨"Box", [⟨none, .tuple [.int 2, .bool false], 2⟩], 2⟩], []⟩

/-- An effect that changes the load and then stops early. -/
def depotEffect : List Block :=
  [.choice ⟨"true".toList, 1, 1⟩
    [.plain ⟨"load: 7".toList, 2, 1⟩, .plain ⟨"load: 1 / 0".toList, 3, 1⟩] []]

/-- The domain, the schema and the effect of the depot, and the state that the effect leaves. -/
def depotRun : Option (Domain × Schema × State) := do
  let (domain, schema) ← load? depotText depotProblem
  let (updates, _) ← (Update.ofBlocks ⟨domain.vocabulary, .empty⟩ depotEffect).toOption
  let update ← updates.head?
  return (domain, schema, ((update.run schema 1).leave ⟨schema.initial, .empty⟩).state)

/-- The run of the depot reaches its state from an accepted problem, by one effect of a declared
action.
-/
theorem reachable_of_depotRun {domain : Domain} {schema : Schema} {state : State}
    (run : depotRun = some (domain, schema, state))
    : Domain.ofText depotText = .ok domain ∧ Schema.ofProblem domain depotProblem = .ok schema
      ∧ Reachable domain schema state := by
  unfold depotRun at run
  obtain ⟨⟨found, layout⟩, loaded, run⟩ := Option.bind_eq_some_iff.mp run
  obtain ⟨⟨updates, scope⟩, effect, run⟩ := Option.bind_eq_some_iff.mp run
  obtain ⟨update, first, run⟩ := Option.bind_eq_some_iff.mp run
  have same := Option.some.inj run
  simp only [Prod.mk.injEq] at same
  obtain ⟨rfl, rfl, rfl⟩ := same
  obtain ⟨read, laid⟩ := accepted_of_load? loaded
  exact ⟨read, laid,
    Reachable.initial.update (ok_of_toOption effect) (List.mem_of_head? first) 1 .empty⟩

/-- The effect of the depot changes the load before it stops early, and leaves a well-formed state.
-/
theorem Reachable.wellFormed_of_depot
    : ∃ domain schema state, Domain.ofText depotText = .ok domain
        ∧ Schema.ofProblem domain depotProblem = .ok schema ∧ Reachable domain schema state
        ∧ state.mutables = [#[.int 7]] ∧ state.WellFormed schema ∧ state.StoresNoSequence := by
  have changed : depotRun.map (·.2.2.mutables) = some [#[.int 7]] := by decide +kernel
  cases run : depotRun with
  | none =>
      rw [run] at changed
      cases changed
  | some result =>
      obtain ⟨domain, schema, state⟩ := result
      rw [run] at changed
      obtain ⟨read, laid, reached⟩ := reachable_of_depotRun run
      exact ⟨domain, schema, state, read, laid, reached, Option.some.inj changed,
        Reachable.wellFormed_of_accepted read laid reached⟩

end Dispatch
