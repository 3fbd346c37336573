import Dispatch.Proofs.Declarations.ActionGroups
import Dispatch.Proofs.Execution.AppliedActions
import Dispatch.Proofs.Grounding.GenerateAndTest
import Dispatch.Proofs.Layout.DeclaredStorage
import Dispatch.Proofs.Scoping.FreeSlots

/-!
Inheritance is a refinement. A child that only adds conditions and parameters has no action that its
parent does not have: cut to the parameters of the parent, each of its actions is an action of the
parent, with the same result. The effects of the parent were read with fewer parameters, and may
give other values to the slots of the parameters that the child adds; but they do so before they
read them, since they depend on the parameters of the parent alone.
-/

namespace Dispatch

open Execution

/-- A choice of ids and its beginning bind the first slots to the same values, as an id is bound to
the slot at its position.
-/
theorem Bindings.get?_ofIds_take (ids : List Int) {count slot : Nat} (below : slot < count)
    : (ofIds ids).get? slot = (ofIds (ids.take count)).get? slot := by
  rw [get?_ofIds, get?_ofIds, List.getElem?_take_of_lt below]

/-- Effects and a cost have the same result with the ids of further parameters as without: they stop
early for one reason, or leave one state at one cost.

They may write the slots of these parameters, as an inherited binding does; but they read such a
slot only after they have written it, so it is none of their free slots.
-/
theorem runWithCost_take {schema : Schema} {limit count : Nat} {effects : List Update} {cost : Cost}
    (below : ∀ slot ∈ Update.freeAll effects ++ cost.free, slot < count) (state : State)
    (ids : List Int)
    : (∃ halt, ((runWithCost schema limit effects cost).finish state (.ofIds ids)).2 = .error halt
        ∧ ((runWithCost schema limit effects cost).finish state (.ofIds (ids.take count))).2
          = .error halt)
      ∨ ∃ next paid,
          (runWithCost schema limit effects cost).finish state (.ofIds ids) = (next, .ok paid)
          ∧ (runWithCost schema limit effects cost).finish state (.ofIds (ids.take count))
            = (next, .ok paid) := by
  have alike
      : Alike (Store.Agree {slot | slot < count} Set.univ) (runWithCost schema limit effects cost)
          (Store.Agree {slot | slot < count} Set.univ) :=
    runWithCost_alike limit below (fun _ _ => Set.mem_univ _) fun _ _ => Set.mem_univ _
  have start
      : Store.Agree {slot | slot < count} Set.univ ⟨state, .ofIds ids⟩
          ⟨state, .ofIds (ids.take count)⟩ :=
    ⟨fun _ low => Bindings.get?_ofIds_take ids low, fun _ _ => State.sameAt_rfl⟩
  rcases alike.finish start with early | ⟨value, _, _, agree, whole, cut⟩
  · exact Or.inl early
  · have same := State.eq_of_sameAt fun cell => agree.cells cell (Set.mem_univ cell)
    rw [← same] at cut
    exact Or.inr ⟨_, value, whole, cut⟩

namespace GroundAction

/-- The action of another declaration with as many of the ids as that has parameters. -/
def cutTo (action : GroundAction) (decl : ActionDecl) : GroundAction :=
  ⟨.ofDecl decl, action.ids.take decl.parameters.length⟩

end GroundAction

namespace ActionDecl.Refines

variable {vocabulary : Vocabulary} {parent child : ActionDecl} {schema : Schema} {state : State}

/-- Every valid choice of ids for the child is valid for the parent when it is cut, since the child
has all conditions of the parent, and these mention none of the ids that are cut off.
-/
theorem isValid_take (refines : parent.Refines child) (wellScoped : parent.WellScoped vocabulary)
    {ids : List Int}
    (valid : (GroundAction.mk (.ofDecl child) ids).isValid schema state = true)
    : (GroundAction.mk (.ofDecl parent) (ids.take parent.parameters.length)).isValid schema state
      = true := by
  rw [Template.isValid_iff] at valid ⊢
  intro condition member
  have agree : Bindings.AgreeOn condition.mentions (.ofIds ids)
      (.ofIds (ids.take parent.parameters.length)) := fun slot mentioned =>
    Bindings.get?_ofIds_take ids (wellScoped.mentions_lt member slot mentioned)
  rw [← Expr.holds_congr schema state condition agree]
  refine valid condition ?_
  rcases List.mem_append.mp member with needed | conflicting
  · exact List.mem_append_left _ (refines.preconditions.subset needed)
  · exact List.mem_append_right _ (refines.conflicts.subset conflicting)

/-- A valid action of the child has the result of the action of the parent. Both are compatible, and
they have one run, as the child takes its effects and its cost over from the parent.
-/
theorem apply_take (refines : parent.Refines child) (wellScoped : parent.WellScoped vocabulary)
    {ids : List Int} (limit : Nat)
    (valid : (GroundAction.mk (.ofDecl child) ids).isValid schema state = true)
    : (GroundAction.mk (.ofDecl child) ids).apply schema limit state
      = (GroundAction.mk (.ofDecl parent) (ids.take parent.parameters.length)).apply schema limit
          state := by
  have whole := GroundAction.isCompatible_of_isValid valid
  have cut := GroundAction.isCompatible_of_isValid (refines.isValid_take wellScoped valid)
  have inherited
      : (GroundAction.mk (.ofDecl child) ids).run schema limit state
        = (runWithCost schema limit parent.effects parent.cost).finish state (.ofIds ids) := by
    rw [← refines.effects, ← refines.cost]
    rfl
  rcases runWithCost_take wellScoped.free_lt state ids
    with ⟨halt, wholeRan, cutRan⟩ | ⟨next, paid, wholeRan, cutRan⟩
  · rw [GroundAction.apply_of_run_error whole (inherited.trans (Prod.ext rfl wholeRan)),
      GroundAction.apply_of_run_error cut (Prod.ext rfl cutRan)]
  · rw [GroundAction.apply_of_run_ok whole (inherited.trans wholeRan),
      GroundAction.apply_of_run_ok cut cutRan]

end ActionDecl.Refines

namespace Template

/-- Inheritance is a refinement. In an accepted domain, let a child add conditions to what it
inherits from its parent, and any parameters, but have no other parts of its own. The parameters of
the parent come first in the child; and each action of the child, cut to the parameters of the
parent, is an action of the parent for the same actor and state, and has the same result there: the
same next state and cost, or the same error, which is not that a condition is not met.
-/
theorem ground_refines_parent {source : List Char} {domain : Domain} {group : Document.Group}
    {parent child : ActionDecl} (read : Domain.ofText source = .ok domain)
    (declared : (group, child) ∈ (Domain.actionGroups source).zip domain.actions)
    (parentDeclared : parent ∈ domain.actions) (inherits : child.parent = some parent.name)
    (additive : ∀ label ∈ group.labels, label.IsAdditive)
    : parent.parameters <+: child.parameters
      ∧ ∀ (schema : Schema) (state : State) (actor : Actor),
          ∀ action ∈ (ofDecl child).ground schema state actor,
            action.cutTo parent ∈ (ofDecl parent).ground schema state actor
            ∧ ∀ limit,
                action.apply schema limit state = (action.cutTo parent).apply schema limit state
                ∧ (action.apply schema limit state).2 ≠ .error .conflicting := by
  have refines := Domain.refines_of_ofText read declared parentDeclared inherits additive
  have wellScoped := (Domain.coherent_of_ofText read).actions parent parentDeclared
  refine ⟨refines.parameters, ?_⟩
  rintro schema state actor ⟨template, choice⟩ grounded
  obtain ⟨first, rest, parameters⟩ :=
    List.exists_cons_of_ne_nil (Domain.parameters_ne_nil_of_ofText read parentDeclared)
  obtain ⟨more, same⟩ := refines.parameters
  have childParameters : child.parameters = first :: (rest ++ more) := by
    rw [← same, parameters, List.cons_append]
  obtain ⟨acts, rfl, ⟨ids, rfl, lives⟩, valid⟩ :=
    (mem_ground_iff schema state child childParameters actor _).mp grounded
  refine ⟨?_, fun limit => ⟨refines.apply_take wellScoped limit valid, ?_⟩⟩
  · refine (mem_ground_iff schema state parent parameters actor _).mpr ⟨acts, rfl, ?_, ?_⟩
    · refine ⟨ids.take rest.length, by simp [GroundAction.cutTo, parameters], ?_⟩
      simpa using List.forall₂_take rest.length lives
    · exact refines.isValid_take wellScoped valid
  · exact GroundAction.apply_ne_conflicting limit (GroundAction.isCompatible_of_isValid valid)

/-- A domain with an action whose effect names a value, and an action that inherits the effect and
adds a parameter in the slot of that value.
-/
def courierText : List Char :=
  ["Start Domain:", "Entities:", "Vehicle, Package", "End Entities", "Variables:",
    "var charge INT", "End Variables", "Actions:", "Move: v - Vehicle", "Effects:",
    "NewVal d: charge + 1", "charge: d", "Cost:", "v + charge", "End Action",
    "Carry: v - Vehicle, p - Package (Move)", "PrecsAdd:", "v < p", "End Action", "End Actions",
    "End Domain"].flatMap fun line => line.toList ++ ['\n']

def courierProblem : Problem :=
  ⟨[⟨"Vehicle", [⟨none, .int 2, 1⟩], 1⟩, ⟨"Package", [⟨none, .int 3, 2⟩], 2⟩,
    ⟨"charge", [⟨none, .int 5, 3⟩], 3⟩], []⟩

/-- The domain and the schema of the courier, its inheriting action with its group, and the action
from which that inherits.
-/
def courierRun : Option (Domain × Schema × (Document.Group × ActionDecl) × ActionDecl) := do
  let (domain, schema) ← load? courierText courierProblem
  let parent ← domain.actions[0]?
  let declared ← ((Domain.actionGroups courierText).zip domain.actions)[1]?
  return (domain, schema, declared, parent)

/-- The run of the courier is one of an accepted domain, in which the child was read from its group
and the parent is declared.
-/
theorem of_courierRun {domain : Domain} {schema : Schema} {group : Document.Group}
    {child parent : ActionDecl} (run : courierRun = some (domain, schema, (group, child), parent))
    : Domain.ofText courierText = .ok domain
      ∧ (group, child) ∈ (Domain.actionGroups courierText).zip domain.actions
      ∧ parent ∈ domain.actions := by
  unfold courierRun at run
  obtain ⟨⟨found, layout⟩, loaded, run⟩ := Option.bind_eq_some_iff.mp run
  obtain ⟨first, firstFound, run⟩ := Option.bind_eq_some_iff.mp run
  obtain ⟨second, secondFound, same⟩ := Option.bind_eq_some_iff.mp run
  obtain ⟨rfl, rfl, rfl, rfl⟩ : _ ∧ _ ∧ _ ∧ _ := by
    simpa only [Prod.mk.injEq] using Option.some.inj same
  exact ⟨(accepted_of_load? loaded).1, List.mem_of_getElem? secondFound,
    List.mem_of_getElem? firstFound⟩

/-- The inheriting action of the courier only adds conditions, and the first vehicle can carry each
of the last two packages.
-/
theorem courierRun_eq
    : courierRun.map (fun (_, schema, (group, child), parent) =>
        (group.labels, child.parent, parent.name,
          ((ofDecl child).ground schema schema.initial ⟨0, 0⟩).map (·.ids)))
      = some ([.morePreconditions], some "Move", "Move", [[0, 1], [0, 2]]) := by
  decide +kernel

/-- Each way in which the first vehicle of the courier can carry a package is a way in which it can
move, with the same result, though moving writes to the slot of the package.
-/
theorem ground_refines_parent_of_courier
    : ∃ domain schema group child parent, Domain.ofText courierText = .ok domain
        ∧ (group, child) ∈ (Domain.actionGroups courierText).zip domain.actions
        ∧ parent ∈ domain.actions ∧ child.parent = some parent.name
        ∧ (∀ label ∈ group.labels, label.IsAdditive)
        ∧ ∃ action ∈ (ofDecl child).ground schema schema.initial ⟨0, 0⟩, action.ids = [0, 2]
            ∧ action.cutTo parent ∈ (ofDecl parent).ground schema schema.initial ⟨0, 0⟩
            ∧ action.apply schema 1 schema.initial
              = (action.cutTo parent).apply schema 1 schema.initial := by
  obtain ⟨⟨domain, schema, ⟨group, child⟩, parent⟩, run, shape⟩ :=
    Option.map_eq_some_iff.mp courierRun_eq
  obtain ⟨read, declared, parentDeclared⟩ := of_courierRun run
  obtain ⟨labels, inherits, named, choices⟩ : _ ∧ _ ∧ _ ∧ _ := by
    simpa only [Prod.mk.injEq] using shape
  have inherits : child.parent = some parent.name := by rw [inherits, named]
  have additive : ∀ label ∈ group.labels, label.IsAdditive := by
    rw [labels, List.forall_mem_singleton]
    exact Or.inl rfl
  have choice : [0, 2] ∈ ((ofDecl child).ground schema schema.initial ⟨0, 0⟩).map (·.ids) := by
    rw [choices]
    decide
  obtain ⟨action, grounded, ids⟩ := List.mem_map.mp choice
  have kept := (ground_refines_parent read declared parentDeclared inherits additive).2 schema
    schema.initial ⟨0, 0⟩ action grounded
  exact ⟨domain, schema, group, child, parent, read, declared, parentDeclared, inherits, additive,
    action, grounded, ids, kept.1, (kept.2 1).1⟩

end Template

end Dispatch
