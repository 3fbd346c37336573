import Dispatch.Proofs.Execution.AppliedActions
import Dispatch.Proofs.Grounding.GenerateAndTest
import Dispatch.Proofs.Simulation.Calls
import Dispatch.Proofs.Simulation.JointSteps

/-!
A joint step plays legal actions only. Every live actor is asked once, in order, and what the policy
answers picks one of the actor's legal actions or none, whatever the answer is. The actions are
legal in the state before the step; in the state at its turn an action is only refused where its
conflicting conditions fail, so the first chosen action is never refused.
-/

namespace Dispatch

-----------------------------------------------------------------------------------------
-- Legal actions
-----------------------------------------------------------------------------------------

/-- An action that a template is grounded to is one of the template. -/
theorem Template.template_of_mem_ground {template : Template} {schema : Schema} {state : State}
    {actor : Actor} {action : GroundAction} (grounded : action ∈ template.ground schema state actor)
    : action.template = template := by
  unfold ground at grounded
  split at grounded
  · cases grounded
  · split at grounded
    · split at grounded
      · rw [List.mem_singleton.mp grounded]
      · cases grounded
    · split at grounded
      · obtain ⟨ids, _, rfl⟩ := List.mem_map.mp grounded
        rfl
      · cases grounded

namespace GroundAction

/-- The action is legal for an actor: the actor is its first parameter, all its parameters have live
ids, and its preconditions and its conflicting conditions hold.
-/
structure Legal (schema : Schema) (state : State) (actor : Actor) (action : GroundAction) : Prop
  where
  actor : action.actor? = some actor
  lives
    : List.Forall₂ (fun parameter id => state.hasId schema parameter.entity id = true)
        action.template.decl.parameters action.ids
  conditions
    : ∀ condition ∈ action.template.decl.preconditions ++ action.template.decl.conflicts,
        condition.holds schema (action.store state) = true
  valid : action.isValid schema state = true

/-- An action of a declaration is compatible when its declared conflicting conditions hold, as the
schedule of conditions holds exactly the declared ones.
-/
theorem isCompatible_iff {action : GroundAction} {decl : ActionDecl}
    (declared : action.template = .ofDecl decl) (schema : Schema) (state : State)
    : action.isCompatible schema state = true
      ↔ ∀ condition ∈ decl.conflicts, condition.holds schema (action.store state) = true := by
  simp only [isCompatible, declared, Template.ofDecl, List.all_eq_true,
    Schedule.mem_order_ofConditions]

end GroundAction

namespace Simulation

variable {simulation : Simulation} {state : State} {actor : Actor} {action : GroundAction}

/-- The actions that an actor is offered are those to which a template of its entity type is
grounded for it.
-/
theorem mem_legalActions_iff
    : action ∈ simulation.legalActions state actor
      ↔ ∃ template ∈ simulation.templates, template.hasActor actor.entity = true
          ∧ action ∈ template.ground simulation.schema state actor := by
  simp only [legalActions, List.mem_flatMap, List.mem_filter, and_assoc]

/-- The actions that an actor is offered are declared by the domain, and legal for the actor. -/
theorem legal_of_mem_legalActions {domain : Domain} {schema : Schema} {config : RunConfig}
    (offered : action ∈ (ofDomain domain schema config).legalActions state actor)
    : (∃ decl ∈ domain.actions, action.template = .ofDecl decl)
      ∧ action.Legal schema state actor := by
  obtain ⟨_, member, acts, grounded⟩ := mem_legalActions_iff.mp offered
  obtain ⟨decl, declared, rfl⟩ := List.mem_map.mp member
  have same := Template.template_of_mem_ground grounded
  refine ⟨⟨decl, declared, same⟩, ?_⟩
  cases parameters : decl.parameters with
  | nil => simp [Template.hasActor, Template.actorEntity?, Template.ofDecl, parameters] at acts
  | cons first rest =>
      obtain ⟨⟨entity, live⟩, _, ⟨ids, choice, lives⟩, valid⟩ :=
        (Template.mem_ground_iff schema state decl parameters actor action).mp grounded
      have whole : action = ⟨.ofDecl decl, action.ids⟩ := by rw [← same]
      refine ⟨?_, ?_, ?_, valid⟩
      · simp [GroundAction.actor?, same, Template.actorEntity?, Template.ofDecl, parameters, choice,
          entity]
      · rw [same, choice]
        simp only [Template.ofDecl, parameters]
        refine .cons (entity ▸ live) (lives.imp fun parameter id member => ?_)
        exact (State.mem_ids_iff state schema parameter.entity id).mp member
      · rw [whole] at valid ⊢
        exact (Template.isValid_iff schema state decl action.ids).mp valid

end Simulation

-----------------------------------------------------------------------------------------
-- Actors
-----------------------------------------------------------------------------------------

/-- The order of actors: by entity type and then by id. -/
def Actor.Precedes (first second : Actor) : Prop :=
  first.entity < second.entity ∨ first.entity = second.entity ∧ first.id < second.id

namespace Simulation

/-- The actors ascend strictly, so none of them stands twice. They are listed by entity type, and
the live ids of each type ascend.
-/
theorem actors_pairwise (simulation : Simulation) (state : State)
    : (simulation.actors state).Pairwise Actor.Precedes := by
  refine List.pairwise_flatMap.mpr ⟨?_, ?_⟩
  · intro entity _
    rw [List.pairwise_map]
    exact (state.ids_pairwise simulation.schema entity).imp fun below => Or.inr ⟨rfl, below⟩
  · refine (List.pairwise_lt_range.filter _).imp ?_
    intro low high below first firstMember second secondMember
    obtain ⟨_, _, rfl⟩ := List.mem_map.mp firstMember
    obtain ⟨_, _, rfl⟩ := List.mem_map.mp secondMember
    exact Or.inl below

/-- The actors are the live instances of the entity types that act in some template. -/
theorem mem_actors_iff (simulation : Simulation) (state : State) (actor : Actor)
    : actor ∈ simulation.actors state
      ↔ (∃ template ∈ simulation.templates, template.actorEntity? = some actor.entity)
        ∧ state.hasId simulation.schema actor.entity actor.id = true := by
  have acts (entity : Nat)
      : simulation.templates.any (·.hasActor entity) = true
        ↔ ∃ template ∈ simulation.templates, template.actorEntity? = some entity := by
    simp only [List.any_eq_true, Template.hasActor, decide_eq_true_eq]
  simp only [actors, actorEntities, List.mem_flatMap, List.mem_filter, List.mem_range, List.mem_map,
    State.mem_ids_iff, acts]
  constructor
  · rintro ⟨entity, ⟨_, some⟩, id, live, rfl⟩
    exact ⟨some, live⟩
  · rintro ⟨some, live⟩
    refine ⟨actor.entity, ⟨?_, some⟩, actor.id, live, rfl⟩
    -- An entity type that the schema does not have has no ids.
    refine Nat.lt_of_not_le fun beyond => ?_
    simp [State.hasId, Schema.storage?, List.getElem?_eq_none beyond] at live

end Simulation

-----------------------------------------------------------------------------------------
-- Asking the policy
-----------------------------------------------------------------------------------------

/-- An actor is asked: the legal actions that it is offered, and the index that is answered. -/
structure Turn where
  actor : Actor
  legal : List GroundAction
  answer : Option Nat

/-- The chosen action: the one at the answered index, none where there is no answer or no such
index.
-/
def Turn.chosen? (turn : Turn) : Option GroundAction := turn.answer.bind (turn.legal[·]?)

namespace Simulation

/-- A policy is asked turn by turn, each time with the memory that its last answer left. -/
inductive Asks {μ : Type} (simulation : Simulation) (policy : Policy μ) (state : State)
    : μ → List Turn → μ → Prop
  | nil {memory : μ} : Asks simulation policy state memory [] memory
  | cons {memory next last : μ} {actor : Actor} {answer : Option Nat} {turns : List Turn}
    (answered : policy.choose memory actor (simulation.legalActions state actor) = (answer, next))
    (rest : Asks simulation policy state next turns last)
    : Asks simulation policy state memory
        (⟨actor, simulation.legalActions state actor, answer⟩ :: turns) last

variable {μ : Type} {simulation : Simulation} {policy : Policy μ} {state : State}

/-- Choosing for actors asks each of them once and in order, by induction on the actors. The memory
of the policy goes from one to the next.
-/
theorem asks_of_chooseAll (simulation : Simulation) (policy : Policy μ) (state : State) (memory : μ)
    (actors : List Actor)
    : ∃ turns,
        simulation.Asks policy state memory turns
          (simulation.chooseAll policy state memory actors).2
        ∧ turns.map (·.actor) = actors
        ∧ (simulation.chooseAll policy state memory actors).1 = turns.filterMap Turn.chosen? := by
  induction actors generalizing memory with
  | nil => exact ⟨[], .nil, rfl, rfl⟩
  | cons actor rest ih =>
      let legal := simulation.legalActions state actor
      obtain ⟨turns, asks, asked, chosen⟩ := ih (policy.choose memory actor legal).2
      let turn : Turn := ⟨actor, legal, (policy.choose memory actor legal).1⟩
      refine ⟨turn :: turns, .cons rfl asks, by rw [List.map_cons, asked], ?_⟩
      have first
          : (simulation.chooseAll policy state memory (actor :: rest)).1
            = turn.chosen?.toList
              ++ (simulation.chooseAll policy state
                  (policy.choose memory actor legal).2 rest).1 :=
        rfl
      rw [first, chosen]
      cases picked : turn.chosen? with
      | none => rw [List.filterMap_cons_none picked, Option.toList_none, List.nil_append]
      | some action =>
          rw [List.filterMap_cons_some picked, Option.toList_some, List.singleton_append]

/-- Every chosen action is offered to the actor who is asked, by induction on the turns. -/
theorem Asks.offered {memory last : μ} {turns : List Turn}
    (asks : simulation.Asks policy state memory turns last)
    : ∀ turn ∈ turns, ∀ action ∈ turn.chosen?,
        action ∈ simulation.legalActions state turn.actor := by
  induction asks with
  | nil => simp
  | cons answered _ ih =>
      refine List.forall_mem_cons.mpr ⟨?_, ih⟩
      intro action chosen
      obtain ⟨index, _, found⟩ := Option.bind_eq_some_iff.mp chosen
      exact List.mem_of_getElem? found

/-- Actors who each choose at most one action of their own choose actions of different actors, in
the order in which they are asked, by induction on the turns.
-/
theorem Turn.sublist_of_own {turns : List Turn}
    (own : ∀ turn ∈ turns, ∀ action ∈ turn.chosen?, action.actor? = some turn.actor)
    : ((turns.filterMap Turn.chosen?).map (·.actor?)).Sublist (turns.map (some ·.actor)) := by
  induction turns with
  | nil => exact .slnil
  | cons turn rest ih =>
      obtain ⟨first, others⟩ := List.forall_mem_cons.mp own
      cases picked : turn.chosen? with
      | none =>
          rw [List.filterMap_cons_none picked]
          exact (ih others).cons _
      | some action =>
          rw [List.filterMap_cons_some picked, List.map_cons, List.map_cons, first action picked]
          exact (ih others).cons_cons _

-----------------------------------------------------------------------------------------
-- Attempts at legal actions
-----------------------------------------------------------------------------------------

/-- Where an action was applied its conflicting conditions held, by induction on the attempts. The
state is the one that the attempt met.
-/
theorem Tries.compatible {final : State} {attempts : List Attempt}
    (tries : simulation.Tries state attempts final)
    : ∀ attempt ∈ attempts, attempt.applied?.isSome →
        attempt.action.isCompatible simulation.schema attempt.state = true := by
  induction tries with
  | nil => simp
  | applied success _ ih =>
      exact List.forall_mem_cons.mpr ⟨fun _ => (GroundAction.ran_of_apply success).1, ih⟩
  | rejected refused _ ih => exact List.forall_mem_cons.mpr ⟨nofun, ih⟩

/-- The first attempt meets the state before all attempts, and is not refused where it is
compatible. It may still fail in its effects.
-/
theorem Tries.first {final : State} {attempts : List Attempt}
    (tries : simulation.Tries state attempts final)
    : ∀ attempt ∈ attempts.head?, attempt.state = state
        ∧ (attempt.action.isCompatible simulation.schema state = true
            → attempt.result ≠ .error .conflicting) := by
  cases tries with
  | nil => simp
  | applied success rest =>
      rintro _ ⟨⟩
      exact ⟨rfl, fun _ => nofun⟩
  | rejected refused rest =>
      rintro _ ⟨⟩
      refine ⟨rfl, fun compatible conflicting => ?_⟩
      obtain rfl := Except.error.inj conflicting
      exact GroundAction.apply_ne_conflicting _ compatible (congrArg Prod.snd refused)

-----------------------------------------------------------------------------------------
-- Joint steps
-----------------------------------------------------------------------------------------

/-- A joint step asks all live actors and tries what they choose. -/
theorem turns_of_step {memory last : μ} {progress next : Progress} {outcome : Outcome}
    (stepped : simulation.step policy memory progress = .ok (outcome, next, last))
    : ∃ turns attempts final,
        simulation.Asks policy progress.state memory turns last
        ∧ turns.map (·.actor) = simulation.actors progress.state
        ∧ simulation.Attempts progress.state (turns.filterMap Turn.chosen?) attempts final
            outcome := by
  obtain ⟨moved, _, _, rfl⟩ := transition_of_step stepped
  obtain ⟨turns, asks, asked, chosen⟩ :=
    asks_of_chooseAll simulation policy progress.state memory (simulation.actors progress.state)
  rw [chosen] at moved
  obtain ⟨attempts, final, attempted, _⟩ := attempts_of_transition moved
  exact ⟨turns, attempts, final, asks, asked, attempted⟩

/-- A joint step plays legal actions only, whatever the policy answers. Every live actor is asked
once, by entity type and then by id, and chooses at most one action, which is its own. All actions
that are applied or rejected are legal in the state before the step; an action is applied only where
its conflicting conditions hold in the state that it meets; and the first chosen action meets the
state before the step and is not refused.
-/
theorem step_plays_legal {domain : Domain} {schema : Schema} {config : RunConfig} {memory last : μ}
    {progress next : Progress} {outcome : Outcome}
    (stepped
      : (ofDomain domain schema config).step policy memory progress = .ok (outcome, next, last))
    : ∃ turns attempts final,
        (ofDomain domain schema config).Asks policy progress.state memory turns last
        ∧ ((turns.map (·.actor)).Pairwise Actor.Precedes
          ∧ ∀ actor, actor ∈ turns.map (·.actor)
              ↔ (∃ decl ∈ domain.actions, decl.parameters.head?.map (·.entity) = some actor.entity)
                ∧ progress.state.hasId schema actor.entity actor.id = true)
        ∧ ((turns.filterMap Turn.chosen?).map (·.actor?)).Sublist (turns.map (some ·.actor))
        ∧ (ofDomain domain schema config).Attempts progress.state (turns.filterMap Turn.chosen?)
            attempts final outcome
        ∧ (∀ action ∈ outcome.applied.map (·.action) ++ outcome.rejected.map (·.action),
            ∃ actor, action.Legal schema progress.state actor)
        ∧ (∀ attempt ∈ attempts, attempt.applied?.isSome →
            ∀ condition ∈ attempt.action.template.decl.conflicts,
              condition.holds schema (attempt.action.store attempt.state) = true)
        ∧ ∀ attempt ∈ attempts.head?,
            attempt.state = progress.state ∧ attempt.result ≠ .error .conflicting := by
  obtain ⟨turns, attempts, final, asks, asked, attempted⟩ := turns_of_step stepped
  -- The action of every attempt was offered to an actor.
  have offered
      : ∀ attempt ∈ attempts, ∃ actor,
          attempt.action ∈ (ofDomain domain schema config).legalActions progress.state actor := by
    intro attempt member
    have chosen : attempt.action ∈ turns.filterMap Turn.chosen? := by
      rw [← attempted.actions]
      exact List.mem_map_of_mem member
    obtain ⟨turn, taken, picked⟩ := List.mem_filterMap.mp chosen
    exact ⟨turn.actor, asks.offered turn taken attempt.action picked⟩
  refine ⟨turns, attempts, final, asks, ⟨?_, ?_⟩, ?_, attempted, ?_, ?_, ?_⟩
  · rw [asked]
    exact actors_pairwise _ progress.state
  · intro actor
    rw [asked, mem_actors_iff]
    simp only [ofDomain, List.mem_map, exists_exists_and_eq_and]
    rfl
  · refine Turn.sublist_of_own fun turn taken action picked => ?_
    exact (legal_of_mem_legalActions (asks.offered turn taken action picked)).2.actor
  · intro action member
    rw [attempted.applied, attempted.rejected, (Attempt.perm_actions attempts).mem_iff] at member
    obtain ⟨attempt, inside, rfl⟩ := List.mem_map.mp member
    obtain ⟨actor, legal⟩ := offered attempt inside
    exact ⟨actor, (legal_of_mem_legalActions legal).2⟩
  · intro attempt inside applied
    obtain ⟨_, legal⟩ := offered attempt inside
    obtain ⟨⟨decl, _, declared⟩, _⟩ := legal_of_mem_legalActions legal
    have compatible := attempted.tries.compatible attempt inside applied
    have holds := (GroundAction.isCompatible_iff declared schema attempt.state).mp compatible
    rw [declared]
    exact holds
  · intro attempt first
    obtain ⟨met, unrefused⟩ := attempted.tries.first attempt first
    obtain ⟨_, legal⟩ := offered attempt (List.mem_of_head? first)
    have valid := (legal_of_mem_legalActions legal).2.valid
    exact ⟨met, unrefused (GroundAction.isCompatible_of_isValid valid)⟩

/-- A quay at which cranes can take a load as long as none has taken it. -/
def quay : Domain where
  vocabulary := .empty
  declarations := []
  items := []
  actions := [{
    name := "Take", base := none, parent := none, parameters := [⟨"c", 0⟩]
    preconditions := [.binary .less (.param 0 "c") (.int 3)]
    conflicts := [.binary .equal (.read (.var 0) "holder" (.int 0)) (.int 9)]
    effects := [.assign (.var 0) "holder" (.int 0) (.param 0 "c")]
    cost := .zero, line := 1 }]
  environment := []
  arrival := []

/-- The quay with four cranes and a free load. -/
def quaySchema : Schema where
  entities := [⟨"Crane", none, .positional 4⟩]
  constants := []
  mutables := [⟨⟨"holder", .int, false, none, none, 0, 1⟩, 1⟩]
  collections := []
  names := [("holder", .var 0)]
  initial := ⟨[#[.int 9]], []⟩
  batches := []

/-- A policy that gives prepared answers, whatever it is asked. -/
def script : Policy (List Nat) where
  choose answers _ _ := (answers.head?, answers.tail)

/-- Witness: the first crane takes the load. The answer for the second is no index of an action, the
third is refused though it could have taken the load before the step, and the last has no action to
choose.
-/
theorem step_plays_legal_at_quay
    : ∃ outcome next last,
        (ofDomain quay quaySchema ⟨1, 0, true⟩).step script [0, 7, 0, 0]
            ⟨quaySchema.initial, 0, 0⟩ = .ok (outcome, next, last)
        ∧ outcome.applied.map (·.action.ids) = [[0]]
        ∧ outcome.rejected.map (fun rejected => (rejected.action.ids, rejected.failure))
          = [([2], .conflicting)]
        ∧ ∀ rejected ∈ outcome.rejected,
            ∃ actor, rejected.action.Legal quaySchema quaySchema.initial actor := by
  have shape
      : ((ofDomain quay quaySchema ⟨1, 0, true⟩).step script [0, 7, 0, 0]
            ⟨quaySchema.initial, 0, 0⟩).toOption.map (fun (outcome, _, _) =>
          (outcome.applied.map (·.action.ids),
            outcome.rejected.map (fun rejected => (rejected.action.ids, rejected.failure))))
        = some ([[0]], [([2], .conflicting)]) := by
    decide +kernel
  obtain ⟨⟨outcome, next, last⟩, stepped, same⟩ := Option.map_eq_some_iff.mp shape
  simp only [Prod.mk.injEq] at same
  obtain ⟨applied, rejected⟩ := same
  have stepped := ok_of_toOption stepped
  obtain ⟨_, _, _, _, _, _, _, legal, _⟩ := step_plays_legal stepped
  refine ⟨outcome, next, last, stepped, applied, rejected, ?_⟩
  intro one member
  exact legal one.action (List.mem_append_right _ (List.mem_map_of_mem member))

end Simulation

end Dispatch
