import Dispatch.Action

/-!
Simulations: in each joint step every actor chooses at most one legal action, the chosen actions are
applied in order, and the environment steps follow. Batches of items arrive between joint steps.
-/

namespace Dispatch

structure RunConfig where
  /-- The greatest number of steps, zero for no bound. -/
  maxSteps : Nat
  /-- A batch arrives after this many steps, zero for arrivals at idle steps alone. -/
  stepsPerBatch : Nat
  /-- Whether a run stops when no actor acts and no batch is left. -/
  stopWhenIdle : Bool
deriving DecidableEq

structure Simulation where
  schema : Schema
  templates : List Template
  environment : List StepDecl
  arrival : List StepDecl
  config : RunConfig
  /-- The greatest number of rounds of a loop. -/
  roundLimit : Nat

structure Progress where
  state : State
  steps : Nat
  batches : Nat
deriving DecidableEq

/-- A way to choose actions, with a memory: the index of the chosen legal action, or none. -/
structure Policy (μ : Type) where
  choose : μ → Actor → List GroundAction → Option Nat × μ

/-- The policy that chooses the first legal action. -/
def Policy.firstLegal : Policy Unit where
  choose _ _ legal := (if legal.isEmpty then none else some 0, ())

structure Applied where
  action : GroundAction
  cost : Int

structure Rejected where
  action : GroundAction
  failure : ActionFailure

structure Outcome where
  applied : List Applied
  rejected : List Rejected
  /-- The sum of the costs of the environment steps. -/
  environmentCost : Int

namespace Outcome

/-- The cost of all applied actions and environment steps. -/
def cost (outcome : Outcome) : Int :=
  wrapped (wrappedSum (outcome.applied.map (·.cost)) + outcome.environmentCost)

def isIdle (outcome : Outcome) : Bool := outcome.applied.isEmpty

end Outcome

inductive SimulationError where
  | step (name : String) (halt : Halt)
  | unknownCollection (batch collection : Nat)
  /-- A run without a bound on its steps did not stop. -/
  | endless
deriving DecidableEq

def SimulationError.message : SimulationError → String
  | .step name halt => "step '" ++ name ++ "': " ++ halt.message
  | .unknownCollection batch collection =>
      "iteration " ++ toString batch ++ " adds to unknown item collection "
        ++ toString collection
  | .endless => "run without end"

structure Summary where
  steps : Nat
  actions : Nat
  rejected : Nat
  batches : Nat
  cost : Int
deriving DecidableEq

def Summary.addStep (summary : Summary) (outcome : Outcome) : Summary :=
  { summary with
    steps := summary.steps + 1
    actions := summary.actions + outcome.applied.length
    rejected := summary.rejected + outcome.rejected.length
    cost := wrapped (summary.cost + outcome.cost) }

namespace Simulation

/-- The simulation of a problem that is laid out against its domain. -/
def ofDomain (domain : Domain) (schema : Schema) (config : RunConfig) : Simulation where
  schema := schema
  templates := domain.actions.map Template.ofDecl
  environment := domain.environment
  arrival := domain.arrival
  config := config
  roundLimit := Dispatch.roundLimit

def start (simulation : Simulation) : Progress := ⟨simulation.schema.initial, 0, 0⟩

def template? (simulation : Simulation) (name : String) : Option Template :=
  simulation.templates.find? (·.decl.name = name)

/-- The entity types that are actors of some template, ascending. -/
def actorEntities (simulation : Simulation) : List Nat :=
  (List.range simulation.schema.entities.length).filter fun entity =>
    simulation.templates.any (·.hasActor entity)

/-- The live actors, by entity type and then by id. -/
def actors (simulation : Simulation) (state : State) : List Actor :=
  simulation.actorEntities.flatMap fun entity =>
    (state.ids simulation.schema entity).map (⟨entity, ·⟩)

/-- The legal actions of an actor, in order of declaration. -/
def legalActions (simulation : Simulation) (state : State) (actor : Actor) : List GroundAction :=
  (simulation.templates.filter (·.hasActor actor.entity)).flatMap fun template =>
    template.ground simulation.schema state actor

/-- Applies actions one after the other, each to the state that the one before it leaves. -/
def applyAll (simulation : Simulation) (state : State) : List GroundAction → State × Outcome
  | [] => (state, ⟨[], [], 0⟩)
  | action :: rest =>
      let (next, result) := action.apply simulation.schema simulation.roundLimit state
      let (final, outcome) := applyAll simulation next rest
      match result with
      | .ok cost => (final, { outcome with applied := ⟨action, cost⟩ :: outcome.applied })
      | .error failure =>
          (final, { outcome with rejected := ⟨action, failure⟩ :: outcome.rejected })

/-- Runs steps one after the other, and adds their costs to a total. A step that stops early ends
them all, and what they changed is given up.
-/
def runSteps (simulation : Simulation) (state : State) (total : Int)
    : List StepDecl → Except SimulationError (State × Int)
  | [] => .ok (state, total)
  | step :: rest =>
      match (runWithCost simulation.schema simulation.roundLimit step.effects step.cost).finish
        state .empty with
      | (_, .error halt) => .error (.step step.name halt)
      | (next, .ok cost) => runSteps simulation next (wrapped (total + cost)) rest

/-- The state after the chosen actions and the environment steps, and what happened. -/
def transition (simulation : Simulation) (state : State) (chosen : List GroundAction)
    : Except SimulationError (State × Outcome) := do
  let (state, outcome) := simulation.applyAll state chosen
  let (state, environmentCost) ← simulation.runSteps state 0 simulation.environment
  return (state, { outcome with environmentCost })

/-- Lets a policy choose for each of the actors; an index beyond the legal actions chooses none. -/
def chooseAll {μ : Type} (simulation : Simulation) (policy : Policy μ) (state : State)
    : μ → List Actor → List GroundAction × μ
  | memory, [] => ([], memory)
  | memory, actor :: rest =>
      let legal := simulation.legalActions state actor
      let (choice, memory) := policy.choose memory actor legal
      let (chosen, memory) := chooseAll simulation policy state memory rest
      ((choice.bind (legal[·]?)).toList ++ chosen, memory)

/-- One joint step, in which the policy chooses from the legal actions of every actor. -/
def step {μ : Type} (simulation : Simulation) (policy : Policy μ) (memory : μ)
    (progress : Progress) : Except SimulationError (Outcome × Progress × μ) := do
  let (chosen, memory) :=
    simulation.chooseAll policy progress.state memory (simulation.actors progress.state)
  let (state, outcome) ← simulation.transition progress.state chosen
  return (outcome, { progress with state, steps := progress.steps + 1 }, memory)

/-- The state with the items of a batch added. -/
def addBatch (batch : Nat) (state : State) : List NewItem → Except SimulationError State
  | [] => .ok state
  | added :: rest =>
      if added.collection < state.collections.length then
        addBatch batch (state.addItem added) rest
      else .error (.unknownCollection batch added.collection)

/-- Adds the items of the next batch and runs the arrival steps; absent where no batch is left. -/
def advance? (simulation : Simulation) (progress : Progress)
    : Except SimulationError (Option Progress) :=
  match simulation.schema.batches[progress.batches]? with
  | none => .ok none
  | some batch => do
      let state ← addBatch progress.batches progress.state batch
      let (state, _) ← simulation.runSteps state 0 simulation.arrival
      return some { progress with state, batches := progress.batches + 1 }

/-- Whether a batch arrives after a step with the given outcome. -/
def isDue (simulation : Simulation) (progress : Progress) (outcome : Outcome) : Bool :=
  let period := simulation.config.stepsPerBatch
  outcome.isIdle || (0 < period && progress.steps % period = 0)

/-- Runs joint steps, at most the given number, and lets batches arrive between them. The progress
made before an error is kept.
-/
def runFrom {μ : Type} (simulation : Simulation) (policy : Policy μ)
    : Nat → μ → Summary → Progress → Progress × Except SimulationError Summary
  | 0, _, summary, progress =>
      (progress, if simulation.config.maxSteps = 0 then .error .endless else .ok summary)
  | steps + 1, memory, summary, progress =>
      match simulation.step policy memory progress with
      | .error error => (progress, .error error)
      | .ok (outcome, progress, memory) =>
          let summary := summary.addStep outcome
          if simulation.isDue progress outcome then
            match simulation.advance? progress with
            | .error error => (progress, .error error)
            | .ok (some progress) =>
                runFrom simulation policy steps memory
                  { summary with batches := summary.batches + 1 } progress
            | .ok none =>
                if outcome.isIdle && simulation.config.stopWhenIdle then (progress, .ok summary)
                else runFrom simulation policy steps memory summary progress
          else runFrom simulation policy steps memory summary progress

/-- Runs joint steps until the limits of the configuration are reached. -/
def run {μ : Type} (simulation : Simulation) (policy : Policy μ) (memory : μ)
    (progress : Progress) : Progress × Except SimulationError Summary :=
  let steps :=
    if simulation.config.maxSteps = 0 then simulation.roundLimit else simulation.config.maxSteps
  simulation.runFrom policy steps memory ⟨0, 0, 0, 0, 0⟩ progress

end Simulation

end Dispatch
