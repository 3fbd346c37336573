import Dispatch.Proofs.Execution.BoundSlots
import Dispatch.Proofs.Execution.ReachableStates
import Dispatch.Proofs.Grounding.ScheduledConditions

/-!
The programs of an accepted domain never fail because of a name, in whatever state they run. Their
slots have values and their storage exists, so both conditions that running effects keeps hold at
the start of every step and of every action that scopes its effects itself.
-/

namespace Dispatch

open Execution

/-- The error is about a name: a slot without a value, or storage that does not exist or may not be
written.
-/
def EvalError.OfNames (schema : Schema) : EvalError → Prop
  | .unboundSlot _ => True
  | error => error.OfStorage schema

def Halt.SparesNames (schema : Schema) (halt : Halt) : Prop :=
  ∀ error, halt = .failed error → ¬ error.OfNames schema

/-- The simulation does not end because of a name, nor of a collection that does not exist. -/
def SimulationError.SparesNames (schema : Schema) : SimulationError → Prop
  | .step _ halt => halt.SparesNames schema
  | .unknownCollection _ _ => False
  | .endless => True

/-- A computation that stops for no storage of the schema and for no unbound slot stops for no name,
by cases on the error: an unbound slot is the one that only the second condition excludes.
-/
theorem Halt.sparesNames {schema : Schema} {halt : Halt} (storage : halt.SparesStorage schema)
    (slots : halt.MissesOnly fun _ => False)
    : halt.SparesNames schema := by
  intro error same
  cases error with
  | unboundSlot slot => exact (slots slot same).elim
  | _ => exact storage _ same

namespace Loaded

variable {domain : Domain} {schema : Schema}

/-- The error that an item is missing is about a name exactly where its collection does not exist,
since no collection of the schema goes without a title.
-/
theorem unknownItem_ofNames_iff (loaded : Loaded domain schema) {collection : Nat} {id : Int}
    : (EvalError.unknownItem (schema.collectionName collection) id).OfNames schema
      ↔ schema.collections[collection]? = none := by
  constructor
  · intro missing
    cases known : schema.collections[collection]? with
    | none => rfl
    | some layout => exact (unknownItem_of_layout known id missing).elim
  · intro absent layout member
    simp only [Schema.collectionName, absent, Option.map_none, Option.getD_none]
    exact loaded.laysOut.titles layout member

/-- Running scoped effects keeps the state well formed and all slots in force bound. Both are kept
on their own, so together they are kept too, also where the effects stop.
-/
theorem keeps_names (loaded : Loaded domain schema)
    : Update.Keeps schema domain.vocabulary
        (fun scope store => store.Formed schema ∧ store.Binds (fun _ => False) scope)
        (fun halt store => halt.StopsFormed schema store ∧ halt.MissesOnly fun _ => False) :=
  loaded.keeps_formed.and (Update.keeps_binds schema domain.vocabulary fun _ => False)

/-- A scoped condition never fails on a name where all slots in force are bound: what it permits to
fail spares storage, and no slot may be missed.
-/
theorem evalBool_fails (loaded : Loaded domain schema) {scope : Scope} {store : Store}
    {condition : Expr} (formed : store.Formed schema) (binds : store.Binds (fun _ => False) scope)
    (resolved : condition.Scoped ⟨domain.vocabulary, scope⟩)
    : FailsOnly (¬ ·.OfNames schema) (condition.evalBool schema store) := by
  have permits := loaded.keeps_names.permits ⟨formed, binds⟩
  refine (Expr.evalBool_fails permits resolved).mono fun error spares => ?_
  exact Halt.sparesNames spares.1.2 spares.2 error rfl

/-- Scoped effects and a scoped cost never fail on a name where all slots in force are bound, since
running them keeps the condition under which they stop for no name.
-/
theorem finish_fails (loaded : Loaded domain schema) {scope : Scope} {state : State}
    {bindings : Bindings} {effects : List Update} {cost : Cost} (limit : Nat)
    (formed : state.WellFormed schema)
    (binds : (Store.mk state bindings).Binds (fun _ => False) scope)
    (effectsResolved : ∀ update ∈ effects, update.Scoped ⟨domain.vocabulary, scope⟩)
    (costResolved : cost.Scoped ⟨domain.vocabulary, scope⟩)
    : FailsOnly (·.SparesNames schema)
        ((runWithCost schema limit effects cost).finish state bindings).2 := by
  intro halt stopped
  have kept := loaded.keeps_names.runWithCost limit effectsResolved costResolved
  obtain ⟨_, spares⟩ := kept.fail_of_finish ⟨formed, binds⟩ (Prod.ext rfl stopped)
  exact Halt.sparesNames spares.1.2 spares.2

-----------------------------------------------------------------------------------------
-- Actions
-----------------------------------------------------------------------------------------

section

variable {decl : ActionDecl} {state : State} {ids : List Int}

/-- The conditions of an action without a parent never fail on a name when all its parameters have
ids.

Such an action was read in the scope of its own parameters, so the slots in force are those that the
ids bind.
-/
theorem condition_fails (loaded : Loaded domain schema) (formed : state.WellFormed schema)
    (declared : decl ∈ domain.actions) (orphan : decl.parent = none)
    (enough : decl.parameters.length ≤ ids.length) {condition : Expr}
    (member : condition ∈ decl.preconditions ++ decl.conflicts)
    : FailsOnly (¬ ·.OfNames schema) (condition.evalBool schema ⟨state, .ofIds ids⟩) := by
  have own := (loaded.coherent.actions decl declared).own orphan
  obtain ⟨_, rfl, resolved⟩ := own.conditions condition member
  rw [ActionDecl.names_length] at resolved
  refine loaded.evalBool_fails formed (Store.binds_ofIds ?_) resolved
  rwa [ParameterDecl.size_scope]

/-- The conditions that are scheduled at a position never fail on a name when the parameters up to
that position have ids: the value is that with any ids for the others.
-/
theorem scheduled_fails (loaded : Loaded domain schema) (formed : state.WellFormed schema)
    (declared : decl ∈ domain.actions) (orphan : decl.parent = none) {position : Nat}
    (enough : min (position + 1) decl.parameters.length ≤ ids.length) {condition : Expr}
    (member
      : condition ∈ (Template.ofDecl decl).preconditions.conditionsAt position
          ++ (Template.ofDecl decl).conflicts.conditionsAt position)
    : FailsOnly (¬ ·.OfNames schema) (condition.evalBool schema ⟨state, .ofIds ids⟩) := by
  have given : condition ∈ decl.preconditions ++ decl.conflicts := by
    rw [List.mem_append] at member ⊢
    exact member.imp Schedule.mem_of_mem_conditionsAt Schedule.mem_of_mem_conditionsAt
  by_cases full : decl.parameters.length ≤ ids.length
  · exact loaded.condition_fails formed declared orphan full given
  · have early : position + 1 < decl.parameters.length := by omega
    have small : ∀ slot ∈ condition.mentions, slot ≤ position := by
      rcases List.mem_append.mp member with scheduled | scheduled
      · exact Schedule.mentions_le_of_mem_conditionsAt early scheduled
      · exact Schedule.mentions_le_of_mem_conditionsAt early scheduled
    let padded := ids ++ List.replicate decl.parameters.length 0
    have agree : Bindings.AgreeOn condition.mentions (.ofIds ids) (.ofIds padded) := by
      intro slot mentioned
      have low := small slot mentioned
      rw [Bindings.get?_ofIds, Bindings.get?_ofIds, List.getElem?_append_left (by omega)]
    have filled : decl.parameters.length ≤ padded.length := by simp [padded]
    rw [Expr.evalBool_congr schema state condition agree]
    exact loaded.condition_fails formed declared orphan filled given

/-- The effects and the cost of an action without a parent never fail on a name when all its
parameters have ids, which are the slots in force at their start.
-/
theorem action_fails (loaded : Loaded domain schema) (formed : state.WellFormed schema)
    (declared : decl ∈ domain.actions) (orphan : decl.parent = none)
    (enough : decl.parameters.length ≤ ids.length) (limit : Nat)
    : FailsOnly (·.SparesNames schema)
        ((runWithCost schema limit decl.effects decl.cost).finish state (.ofIds ids)).2 := by
  have own := (loaded.coherent.actions decl declared).own orphan
  rw [← ParameterDecl.size_scope] at enough
  obtain ⟨_, rfl, costResolved⟩ := own.cost
  rw [ActionDecl.names_length] at costResolved
  refine loaded.finish_fails limit formed (Store.binds_ofIds enough) ?_ costResolved
  intro update member
  obtain ⟨_, rfl, resolved⟩ := own.effects update member
  rwa [ActionDecl.names_length] at resolved

end

-----------------------------------------------------------------------------------------
-- Steps
-----------------------------------------------------------------------------------------

section

variable {state : State} {config : RunConfig}

/-- A step never fails on a name: it is read in the empty scope, so it starts with no slot in force
and without bindings.
-/
theorem step_fails (loaded : Loaded domain schema) (formed : state.WellFormed schema)
    {step : StepDecl} (known : step.WellScoped domain.vocabulary) (limit : Nat)
    : FailsOnly (·.SparesNames schema)
        ((runWithCost schema limit step.effects step.cost).finish state .empty).2 :=
  loaded.finish_fails limit formed (fun _ inside => (Nat.not_lt_zero _ inside).elim) known.effects
    known.cost

/-- Steps that run one after the other never fail on a name, by induction on them. -/
theorem runSteps_fails (loaded : Loaded domain schema) (formed : state.WellFormed schema)
    {steps : List StepDecl} (known : ∀ step ∈ steps, step.WellScoped domain.vocabulary)
    (total : Int)
    : FailsOnly (·.SparesNames schema)
        ((Simulation.ofDomain domain schema config).runSteps state total steps) := by
  induction steps generalizing state total with
  | nil => exact .ok _
  | cons step rest ih =>
      obtain ⟨first, others⟩ := List.forall_mem_cons.mp known
      unfold Simulation.runSteps
      split
      · rename_i stopped
        exact .error (loaded.step_fails formed first _ _ (congrArg Prod.snd stopped))
      · rename_i finished
        obtain ⟨_, kept⟩ := (loaded.meets_step first _).post_of_finish formed finished
        exact ih kept others _

/-- A joint step never ends the simulation because of a name. Its actions may fail for whatever
reason, as a failure only rejects them; what can end it are the environment steps behind them.
-/
theorem transition_fails (loaded : Loaded domain schema) (formed : state.WellFormed schema)
    {chosen : List GroundAction}
    (declared : ∀ action ∈ chosen, ∃ decl ∈ domain.actions, action.template = .ofDecl decl)
    : FailsOnly (·.SparesNames schema)
        ((Simulation.ofDomain domain schema config).transition state chosen) := by
  refine FailsOnly.bind ?_ fun _ _ => .ok _
  exact loaded.runSteps_fails (loaded.maintains_wellFormed.applyAll declared formed)
    loaded.coherent.environment 0

/-- The arrival of a batch never ends the simulation because of a name or an unknown collection: the
items of a batch are laid out for collections of the schema, and the steps behind them are scoped.
-/
theorem advance?_fails (loaded : Loaded domain schema) {progress : Progress}
    (formed : progress.state.WellFormed schema)
    : FailsOnly (·.SparesNames schema)
        ((Simulation.ofDomain domain schema config).advance? progress) := by
  unfold Simulation.advance?
  split
  · exact .ok _
  · rename_i batch found
    have fits := loaded.laysOut.batches batch (List.mem_of_getElem? found)
    rw [addBatch_eq progress.batches formed fits]
    have joined := formed.addItems fits
    exact (loaded.runSteps_fails joined loaded.coherent.arrival 0).bind fun _ _ => .ok _

end

end Loaded

-----------------------------------------------------------------------------------------
-- Accepted domains and problems
-----------------------------------------------------------------------------------------

/-- For every accepted problem of an accepted domain and every state that it can come to: an action
without a parent, with an id for each of its parameters, never fails on a name, be it in a
condition, in its effects or in its cost; nor does a condition that is scheduled at a position, with
ids for the parameters up to it; nor does a step; and no joint step and no arrival of a batch ends
the simulation because of a name or of a collection that does not exist.

An item that is not live may be missed; that is an error about a name exactly where there is no
collection at all in which to look for it.
-/
theorem Reachable.sparesNames_of_accepted {source : List Char} {domain : Domain}
    {problem : Problem} {schema : Schema} {state : State}
    (read : Domain.ofText source = .ok domain)
    (laid : Schema.ofProblem domain problem = .ok schema)
    (reached : Reachable domain schema state)
    : (∀ decl ∈ domain.actions, decl.parent = none → ∀ ids : List Int,
        (decl.parameters.length ≤ ids.length
          → (∀ condition ∈ decl.preconditions ++ decl.conflicts,
              FailsOnly (¬ ·.OfNames schema) (condition.evalBool schema ⟨state, .ofIds ids⟩))
            ∧ ∀ limit, FailsOnly (·.SparesNames schema)
                ((runWithCost schema limit decl.effects decl.cost).finish state (.ofIds ids)).2)
        ∧ ∀ position, min (position + 1) decl.parameters.length ≤ ids.length
            → ∀ condition ∈ (Template.ofDecl decl).preconditions.conditionsAt position
                ++ (Template.ofDecl decl).conflicts.conditionsAt position,
              FailsOnly (¬ ·.OfNames schema) (condition.evalBool schema ⟨state, .ofIds ids⟩))
      ∧ (∀ step ∈ domain.environment ++ domain.arrival, ∀ limit,
          FailsOnly (·.SparesNames schema)
            ((runWithCost schema limit step.effects step.cost).finish state .empty).2)
      ∧ (∀ config chosen,
          (∀ action ∈ chosen, ∃ decl ∈ domain.actions, action.template = Template.ofDecl decl)
          → FailsOnly (·.SparesNames schema)
              ((Simulation.ofDomain domain schema config).transition state chosen))
      ∧ (∀ config steps batches,
          FailsOnly (·.SparesNames schema)
            ((Simulation.ofDomain domain schema config).advance? ⟨state, steps, batches⟩))
      ∧ ∀ collection id,
          (EvalError.unknownItem (schema.collectionName collection) id).OfNames schema
            ↔ schema.collections[collection]? = none := by
  have loaded := loaded_of_accepted read laid
  have formed := loaded.wellFormed_of_reachable reached
  refine ⟨?_, ?_, ?_, ?_, fun _ _ => loaded.unknownItem_ofNames_iff⟩
  · intro decl declared orphan ids
    refine ⟨fun enough => ⟨?_, ?_⟩, ?_⟩
    · intro condition member
      exact loaded.condition_fails formed declared orphan enough member
    · exact loaded.action_fails formed declared orphan enough
    · intro position enough condition member
      exact loaded.scheduled_fails formed declared orphan enough member
  · intro step member limit
    rcases List.mem_append.mp member with environment | arrival
    · exact loaded.step_fails formed (loaded.coherent.environment step environment) limit
    · exact loaded.step_fails formed (loaded.coherent.arrival step arrival) limit
  · intro config chosen declared
    exact loaded.transition_fails formed declared
  · intro config steps batches
    exact loaded.advance?_fails formed

/-- A domain with an action whose cost binds a name and has no value, and with steps. -/
def harborText : List Char :=
  ["Start Domain:", "Entities:", "Ship, Crate", "End Entities", "Variables:", "var load INT - Ship",
    "items Crate var weight INT", "End Variables", "Actions:", "Fill: s - Ship, c - Crate",
    "Precs:", "weight c > 0", "Effects:", "Crate remove: c", "load s: load s + weight c", "Cost:",
    "NewVal paid: load s", "paid / 0", "End Action", "End Actions", "EnvSteps:", "Drift:",
    "Effects:", "All (s - Ship (load s > 3)):", "load s: 3", "End", "End Step", "End EnvSteps",
    "IterStep:", "Unpack:", "Effects:", "Crate add: (1)", "End Step", "End IterStep",
    "End Domain"].flatMap fun line => line.toList ++ ['\n']

def harborProblem : Problem :=
  ⟨[⟨"Ship", [⟨none, .int 1, 1⟩], 1⟩, ⟨"Crate", [⟨none, .tuple [.int 4], 2⟩], 2⟩],
    [[⟨"Crate", [⟨none, .tuple [.int 2], 3⟩], 3⟩]]⟩

/-- The domain and the schema of the harbor, its action, and the reason why that stops. -/
def harborRun : Option (Domain × Schema × ActionDecl × Halt) := do
  let (domain, schema) ← load? harborText harborProblem
  let decl ← domain.action? "Fill"
  match ((runWithCost schema 1 decl.effects decl.cost).finish schema.initial (.ofIds [0, 0])).2 with
  | .error halt => return (domain, schema, decl, halt)
  | .ok _ => none

/-- The run of the harbor is one of an accepted problem, and its action is declared; each part is
read off a bind of the run.
-/
theorem of_harborRun {domain : Domain} {schema : Schema} {decl : ActionDecl} {halt : Halt}
    (run : harborRun = some (domain, schema, decl, halt))
    : Domain.ofText harborText = .ok domain ∧ Schema.ofProblem domain harborProblem = .ok schema
      ∧ decl ∈ domain.actions
      ∧ ((runWithCost schema 1 decl.effects decl.cost).finish schema.initial (.ofIds [0, 0])).2
        = .error halt := by
  unfold harborRun at run
  obtain ⟨⟨found, layout⟩, loaded, run⟩ := Option.bind_eq_some_iff.mp run
  obtain ⟨action, named, run⟩ := Option.bind_eq_some_iff.mp run
  split at run
  · rename_i stopped
    have same := Option.some.inj run
    simp only [Prod.mk.injEq] at same
    obtain ⟨rfl, rfl, rfl, rfl⟩ := same
    obtain ⟨read, laid⟩ := accepted_of_load? loaded
    exact ⟨read, laid, List.mem_of_find?_eq_some named, stopped⟩
  · cases run

/-- The action of the harbor has no parent and two parameters, and stops at a division. -/
theorem harborRun_eq
    : harborRun.map (fun (domain, _, decl, halt) =>
        (decl.parent, decl.parameters.length, domain.environment.length, domain.arrival.length,
          halt))
      = some (none, 2, 1, 1, .failed .divisionByZero) := by
  decide +kernel

/-- The action of the harbor stops early, though not because of a name, and the arrival of the batch
does not fail on one either.
-/
theorem Reachable.sparesNames_of_harbor
    : ∃ domain schema decl, Domain.ofText harborText = .ok domain
        ∧ Schema.ofProblem domain harborProblem = .ok schema
        ∧ Reachable domain schema schema.initial ∧ decl ∈ domain.actions ∧ decl.parent = none
        ∧ ((runWithCost schema 1 decl.effects decl.cost).finish schema.initial (.ofIds [0, 0])).2
          = .error (.failed .divisionByZero)
        ∧ (Halt.failed .divisionByZero).SparesNames schema
        ∧ ∀ config, FailsOnly (·.SparesNames schema)
            ((Simulation.ofDomain domain schema config).advance? ⟨schema.initial, 0, 0⟩) := by
  obtain ⟨⟨domain, schema, decl, halt⟩, run, shape⟩ := Option.map_eq_some_iff.mp harborRun_eq
  obtain ⟨read, laid, declared, stopped⟩ := of_harborRun run
  obtain ⟨orphan, two, _, _, rfl⟩ : _ ∧ _ ∧ _ ∧ _ ∧ _ := by simpa only [Prod.mk.injEq] using shape
  have enough : decl.parameters.length ≤ ([0, 0] : List Int).length := Nat.le_of_eq two
  obtain ⟨actions, _, _, arrivals, _⟩ := Reachable.sparesNames_of_accepted read laid .initial
  have spared := ((actions decl declared orphan [0, 0]).1 enough).2 1 _ stopped
  exact ⟨domain, schema, decl, read, laid, .initial, declared, orphan, stopped, spared,
    fun config => arrivals config 0 0⟩

end Dispatch
