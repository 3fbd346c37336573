import Dispatch.Proofs.Grounding.ScheduledConditions
import Dispatch.Proofs.Layout.LiveIds
import Mathlib.Data.List.Forall2
import Mathlib.Data.List.Lex

/-!
The search for grounded actions, which leaves a partial choice at the first scheduled condition that
fails, finds what generating every choice of ids and testing it as a whole would find. The search is
followed position by position; the schedule then makes the tests on the way together the test of the
whole choice.
-/

namespace Dispatch

namespace Template

variable (template : Template) (schema : Schema) (state : State)

-----------------------------------------------------------------------------------------
-- What the search yields
-----------------------------------------------------------------------------------------

/-- The search extends a partial choice exactly to those choices that take one id for each further
parameter and pass at every further position, by induction on the further parameters.
-/
theorem mem_extensions_iff (ids : List Int) (parameters : List ParameterDecl) (choice : List Int)
    : choice ∈ template.extensions schema state ids parameters
      ↔ ∃ more, choice = ids ++ more
          ∧ List.Forall₂ (fun parameter id => id ∈ state.ids schema parameter.entity)
              parameters more
          ∧ ∀ position, ids.length ≤ position → position < choice.length →
              template.passes schema state position (choice.take (position + 1)) = true := by
  induction parameters generalizing ids with
  | nil =>
      simp only [extensions, List.mem_singleton, List.forall₂_nil_left_iff]
      constructor
      · rintro rfl
        exact ⟨[], by simp, rfl, fun position _ _ => by omega⟩
      · rintro ⟨_, same, rfl, _⟩
        simpa using same
  | cons parameter rest ih =>
      simp only [extensions, List.mem_flatMap]
      constructor
      · rintro ⟨id, live, member⟩
        split at member
        · rename_i passed
          obtain ⟨more, rfl, lives, passes⟩ := (ih _).mp member
          refine ⟨id :: more, by simp, .cons live lives, ?_⟩
          intro position low high
          rcases Nat.eq_or_lt_of_le low with rfl | later
          · rwa [List.take_left' (by simp)]
          · refine passes position ?_ high
            rw [List.length_append, List.length_singleton]
            omega
        · simp at member
      · rintro ⟨_, rfl, lives, passes⟩
        obtain ⟨id, more, live, others, rfl⟩ := List.forall₂_cons_left_iff.mp lives
        have passed := passes ids.length (Nat.le_refl _) (by simp)
        rw [List.append_cons, List.take_left' (by simp)] at passed
        refine ⟨id, live, ?_⟩
        rw [if_pos passed, ih]
        refine ⟨more, by simp, others, ?_⟩
        intro position low high
        exact passes position (by simp at low; omega) high

/-- The search yields choices in strict lexicographic order: choices through different ids of a
parameter differ first at that id, and the ids of a parameter are tried in ascending order.
-/
theorem extensions_pairwise (ids : List Int) (parameters : List ParameterDecl)
    : (template.extensions schema state ids parameters).Pairwise (List.Lex (· < ·)) := by
  induction parameters generalizing ids with
  | nil => simp [extensions]
  | cons parameter rest ih =>
      simp only [extensions]
      refine List.pairwise_flatMap.mpr ⟨?_, ?_⟩
      · intro id _
        split
        · exact ih _
        · exact .nil
      · refine (state.ids_pairwise schema parameter.entity).imp ?_
        intro low high below first firstMember second secondMember
        split at firstMember <;> split at secondMember <;> try simp_all only [List.not_mem_nil]
        obtain ⟨_, rfl, _⟩ := (mem_extensions_iff ..).mp firstMember
        obtain ⟨_, rfl, _⟩ := (mem_extensions_iff ..).mp secondMember
        simp only [List.append_assoc, List.singleton_append]
        exact List.Lex.append_left _ (.rel below) ids

-----------------------------------------------------------------------------------------
-- Passing at every position is passing as a whole
-----------------------------------------------------------------------------------------

/-- A whole choice passes at every position, seen up to that position, exactly when its grounded
action is valid.
-/
theorem passes_take_iff (decl : ActionDecl) (ids : List Int) (positive : 0 < ids.length)
    (count : ids.length = decl.parameters.length)
    : (∀ position < ids.length,
        (ofDecl decl).passes schema state position (ids.take (position + 1)) = true)
      ↔ (GroundAction.mk (ofDecl decl) ids).isValid schema state = true := by
  simp only [passes, GroundAction.isValid, GroundAction.isCompatible, GroundAction.store,
    Bool.and_eq_true, ofDecl, ← count, Schedule.all_order_iff positive]
  constructor
  · intro passed
    constructor <;> intro position below
    · rw [← Schedule.all_conditionsAt_take _ _ _ _ below]
      exact (passed position below).1
    · rw [← Schedule.all_conditionsAt_take _ _ _ _ below]
      exact (passed position below).2
  · rintro ⟨preconditions, conflicts⟩ position below
    rw [Schedule.all_conditionsAt_take _ _ _ _ below, Schedule.all_conditionsAt_take _ _ _ _ below]
    exact ⟨preconditions position below, conflicts position below⟩

/-- The choices that the search from an actor yields are those that begin with the actor's id, take
an id for each further parameter and make a valid action.
-/
theorem mem_extensions_actor_iff (decl : ActionDecl) {first : ParameterDecl}
    {rest : List ParameterDecl} (parameters : decl.parameters = first :: rest) (actor : Int)
    (choice : List Int)
    : ((ofDecl decl).passes schema state 0 [actor] = true
        ∧ choice ∈ (ofDecl decl).extensions schema state [actor] rest)
      ↔ (∃ ids, choice = actor :: ids
          ∧ List.Forall₂ (fun parameter id => id ∈ state.ids schema parameter.entity) rest ids)
        ∧ (GroundAction.mk (ofDecl decl) choice).isValid schema state = true := by
  rw [mem_extensions_iff]
  constructor
  · rintro ⟨passed, ids, rfl, lives, passes⟩
    refine ⟨⟨ids, rfl, lives⟩, ?_⟩
    rw [← passes_take_iff schema state decl _ (by simp) (by simp [parameters, lives.length_eq])]
    intro position below
    rcases Nat.eq_zero_or_pos position with rfl | later
    · simpa using passed
    · exact passes position later below
  · rintro ⟨⟨ids, rfl, lives⟩, valid⟩
    rw [← passes_take_iff schema state decl _ (by simp) (by simp [parameters, lives.length_eq])]
      at valid
    exact ⟨by simpa using valid 0 (by simp), ids, rfl, lives, fun position _ => valid position⟩

/-- An actor of the entity type of the first parameter that is live has the actions of the search;
any other actor has none, and an action without parameters has no actor at all.
-/
theorem ground_eq_extensions (decl : ActionDecl) {first : ParameterDecl}
    {rest : List ParameterDecl} (parameters : decl.parameters = first :: rest) (actor : Actor)
    : (ofDecl decl).ground schema state actor
      = if first.entity = actor.entity ∧ state.hasId schema actor.entity actor.id = true then
          if (ofDecl decl).passes schema state 0 [actor.id] then
            ((ofDecl decl).extensions schema state [actor.id] rest).map (⟨ofDecl decl, ·⟩)
          else []
        else [] := by
  have declared : (ofDecl decl).decl.parameters = first :: rest := parameters
  simp only [ground, declared]
  by_cases live : state.hasId schema actor.entity actor.id = true <;>
    by_cases same : first.entity = actor.entity <;> simp [live, same]

/-- An actor's actions are those that begin with its id, take an id for each further parameter and
are valid.
-/
theorem mem_ground_iff (decl : ActionDecl) {first : ParameterDecl} {rest : List ParameterDecl}
    (parameters : decl.parameters = first :: rest) (actor : Actor) (action : GroundAction)
    : action ∈ (ofDecl decl).ground schema state actor
      ↔ (first.entity = actor.entity ∧ state.hasId schema actor.entity actor.id = true)
        ∧ action.template = ofDecl decl
        ∧ (∃ ids, action.ids = actor.id :: ids
            ∧ List.Forall₂ (fun parameter id => id ∈ state.ids schema parameter.entity) rest ids)
        ∧ action.isValid schema state = true := by
  obtain ⟨template, ids⟩ := action
  have search := mem_extensions_actor_iff schema state decl parameters actor.id ids
  rw [ground_eq_extensions schema state decl parameters]
  split
  · rename_i acts
    constructor
    · intro member
      split at member
      · rename_i passed
        obtain ⟨_, found, same⟩ := List.mem_map.mp member
        obtain ⟨rfl, rfl⟩ := GroundAction.mk.inj same
        exact ⟨acts, rfl, search.mp ⟨passed, found⟩⟩
      · simp at member
    · rintro ⟨_, rfl, choice⟩
      obtain ⟨passed, found⟩ := search.mpr choice
      rw [if_pos passed]
      exact List.mem_map.mpr ⟨ids, found, rfl⟩
  · rename_i idle
    simp [idle]

/-- A choice of ids is valid exactly when every declared condition holds of it: the two schedules
hold the declared conditions and no others.
-/
theorem isValid_iff (decl : ActionDecl) (ids : List Int)
    : (GroundAction.mk (ofDecl decl) ids).isValid schema state = true
      ↔ ∀ condition ∈ decl.preconditions ++ decl.conflicts,
          condition.holds schema ⟨state, .ofIds ids⟩ = true := by
  simp only [GroundAction.isValid, GroundAction.isCompatible, GroundAction.store, ofDecl,
    Bool.and_eq_true, List.all_eq_true, Schedule.mem_order_ofConditions, List.mem_append, or_imp,
    forall_and]

/-- Grounding is generating and testing. For an action with a first parameter, a live actor of that
parameter's entity type has exactly the valid actions that give the actor's id to the first
parameter and a live id to each other, in strict lexicographic order of their ids; any other actor
has none. Being valid is the same as fulfilling every declared condition, in whatever order.
-/
theorem ground_eq_generate_and_test (decl : ActionDecl) {first : ParameterDecl}
    {rest : List ParameterDecl} (parameters : decl.parameters = first :: rest) (actor : Actor)
    : (∀ action,
        action ∈ (ofDecl decl).ground schema state actor
        ↔ (first.entity = actor.entity ∧ state.hasId schema actor.entity actor.id = true)
          ∧ action.template = ofDecl decl
          ∧ (∃ ids, action.ids = actor.id :: ids
              ∧ List.Forall₂ (fun parameter id => id ∈ state.ids schema parameter.entity)
                  rest ids)
          ∧ action.isValid schema state = true)
      ∧ (((ofDecl decl).ground schema state actor).map (·.ids)).Pairwise (List.Lex (· < ·))
      ∧ (¬(first.entity = actor.entity ∧ state.hasId schema actor.entity actor.id = true)
          → (ofDecl decl).ground schema state actor = [])
      ∧ ∀ ids,
          (GroundAction.mk (ofDecl decl) ids).isValid schema state = true
          ↔ ∀ condition ∈ decl.preconditions ++ decl.conflicts,
              condition.holds schema ⟨state, .ofIds ids⟩ = true := by
  have found := ground_eq_extensions schema state decl parameters actor
  refine ⟨mem_ground_iff schema state decl parameters actor, ?_, ?_, isValid_iff schema state decl⟩
  · rw [found]
    split
    · split
      · simpa [List.map_map, Function.comp_def] using extensions_pairwise _ schema state _ rest
      · exact .nil
    · exact .nil
  · intro other
    rw [found, if_neg other]

/-- A schema with two vehicles and three packages, told apart by position, and nothing else. -/
def boardingSchema : Schema where
  entities := [⟨"Vehicle", none, .positional 2⟩, ⟨"Package", none, .positional 3⟩]
  constants := []
  mutables := []
  collections := []
  names := []
  initial := ⟨[], []⟩
  batches := []

/-- An action of a vehicle on a package whose number is greater and not the double, with a condition
on the later parameter declared first.
-/
def boarding : ActionDecl where
  name := "Board"
  base := none
  parent := none
  parameters := [⟨"v", 0⟩, ⟨"p", 1⟩]
  preconditions := [.binary .less (.param 0 "v") (.param 1 "p"), .isLive 0 "Vehicle" (.param 0 "v")]
  conflicts := [.binary .notEqual (.param 1 "p") (.binary .mul (.int 2) (.param 0 "v"))]
  effects := []
  cost := .zero
  line := 1

/-- The second vehicle can board no package: the third is its double, so it is generated and fails
the test; the first vehicle can board the third package.
-/
theorem ground_boarding
    : boarding.parameters = [⟨"v", 0⟩, ⟨"p", 1⟩]
      ∧ ⟨ofDecl boarding, [0, 2]⟩ ∈ (ofDecl boarding).ground boardingSchema ⟨[], []⟩ ⟨0, 0⟩
      ∧ ⟨ofDecl boarding, [1, 2]⟩ ∉ (ofDecl boarding).ground boardingSchema ⟨[], []⟩ ⟨0, 1⟩ := by
  refine ⟨rfl, ?_, ?_⟩
  · refine ((ground_eq_generate_and_test boardingSchema ⟨[], []⟩ boarding rfl ⟨0, 0⟩).1 _).mpr
      ⟨by decide, rfl, ⟨[2], rfl, .cons (by decide) .nil⟩, by decide⟩
  · intro member
    have valid := ((ground_eq_generate_and_test boardingSchema ⟨[], []⟩ boarding rfl ⟨0, 1⟩).1
      _).mp member
    exact absurd valid.2.2.2 (by decide)

end Template

end Dispatch
