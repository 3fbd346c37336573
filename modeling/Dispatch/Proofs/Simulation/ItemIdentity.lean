import Mathlib.Logic.Relation
import Dispatch.Proofs.Execution.ReachableStates
import Dispatch.Proofs.Layout.InitialItems
import Dispatch.Proofs.Simulation.LegalMoves

/-!
The identity of items over whole simulations. Ids are given in order and never twice: whatever
actions, steps and batches do, the next id of a collection never falls back, and the id of an item
that was removed stays unused. Only adding and removing items change which ids are live.
-/

namespace Dispatch

open Execution

-----------------------------------------------------------------------------------------
-- Collections that continue others
-----------------------------------------------------------------------------------------

namespace Items

/-- Items continue earlier ones: the next id does not fall back, and an id that was given and is not
live any more does not come back.
-/
structure Continues (before after : Items) : Prop where
  grows : before.nextId ≤ after.nextId
  retires
    : ∀ id : Int, id < before.nextId → before.contains id = false → after.contains id = false

theorem Continues.refl (items : Items) : items.Continues items :=
  ⟨Nat.le_refl _, fun _ _ dead => dead⟩

/-- To continue is transitive: an id that is dead in the middle was given, so it stays dead. -/
theorem Continues.trans {before middle after : Items} (first : before.Continues middle)
    (second : middle.Continues after)
    : before.Continues after := by
  refine ⟨first.grows.trans second.grows, fun id below dead => ?_⟩
  have still : id < middle.nextId := Int.lt_of_lt_of_le below (Int.ofNat_le.mpr first.grows)
  exact second.retires id still (first.retires id below dead)

/-- Items go on with an item inserted: it gets the next id, which has never been live. -/
theorem continues_insert (items : Items) (item : Item) : items.Continues (items.insert item) := by
  refine ⟨Nat.le_succ items.nextId, fun id below dead => ?_⟩
  rw [contains, get?_insert_eq, if_neg (Int.ne_of_lt below)]
  exact dead

/-- Items go on with one of them removed. The next id stays, so that the id of the item is not given
again.
-/
theorem continues_remove (items : Items) (id : Int) : items.Continues (items.remove id) := by
  refine ⟨Nat.le_refl items.nextId, fun other _ dead => ?_⟩
  rw [remove, contains, get?_change_eq]
  split
  · rw [Option.bind_fun_none]
    rfl
  · exact dead

/-- The ids in use and the next id. -/
def identity (items : Items) : List Int × Nat := (items.ids, items.nextId)

/-- A change of the item of an id, if it is live, leaves all ids as they are. The item is another,
but there is one as before.
-/
theorem identity_change (items : Items) (id : Int) (change : Item → Item)
    : (items.change id fun item => some (change item)).identity = items.identity := by
  have same (other : Int)
      : (items.change id fun item => some (change item)).contains other = items.contains other := by
    rw [contains, contains, get?_change_eq]
    split
    · cases items.get? other <;> rfl
    · rfl
  exact Prod.ext (ids_congr fun other => by rw [same]) rfl

/-- Items with the same ids continue each other. -/
theorem continues_of_identity {before after : Items} (same : after.identity = before.identity)
    : before.Continues after := by
  obtain ⟨ids, next⟩ := Prod.mk.inj same
  refine ⟨next.ge, fun id _ dead => ?_⟩
  rw [Bool.eq_false_iff, ne_eq, ← mem_ids_iff, ids, mem_ids_iff, dead]
  exact Bool.false_ne_true

end Items

-----------------------------------------------------------------------------------------
-- States that continue others
-----------------------------------------------------------------------------------------

namespace State

/-- A state continues an earlier one when each of its collections does. -/
def Continues (before after : State) : Prop :=
  ∀ (collection : Nat) (items : Items), before.collections[collection]? = some items
    → ∃ later, after.collections[collection]? = some later ∧ items.Continues later

/-- The ids in use and the next id of every collection. -/
def identities (state : State) : List (List Int × Nat) := state.collections.map (·.identity)

theorem Continues.refl (state : State) : state.Continues state :=
  fun _ items present => ⟨items, present, .refl items⟩

theorem Continues.trans {before middle after : State} (first : before.Continues middle)
    (second : middle.Continues after)
    : before.Continues after := by
  intro collection items present
  obtain ⟨between, found, continues⟩ := first collection items present
  obtain ⟨later, last, further⟩ := second collection between found
  exact ⟨later, last, continues.trans further⟩

/-- A state goes on when one collection is changed in a way in which items do. -/
theorem continues_modifyCollection (state : State) (collection : Nat) {change : Items → Items}
    (continues : ∀ items : Items, items.Continues (change items))
    : state.Continues (state.modifyCollection collection change) := by
  intro other items present
  refine ⟨_, by rw [modifyCollection, List.getElem?_modify, present]; rfl, ?_⟩
  split
  · exact continues items
  · exact .refl items

theorem identities_modifyCollection (state : State) (collection : Nat) {change : Items → Items}
    (same : ∀ items : Items, (change items).identity = items.identity)
    : (state.modifyCollection collection change).identities = state.identities := by
  refine List.ext_getElem? fun other => ?_
  simp only [identities, modifyCollection, List.getElem?_map, List.getElem?_modify]
  cases state.collections[other]? with
  | none => rfl
  | some items =>
      by_cases own : collection = other
      · simp [own, same]
      · simp [own]

/-- Writing to a place changes no ids, be the place a variable or a field of an item. A write to an
id that is not live changes nothing at all.
-/
theorem identities_write (state : State) (place : Place) (index : Int) (value : Value)
    : (state.write place index value).identities = state.identities := by
  cases place with
  | const slot => rfl
  | var slot =>
      unfold write
      dsimp only
      split <;> rfl
  | field collection slot constant =>
      exact state.identities_modifyCollection collection fun items =>
        items.identity_change index _

theorem identities_replace (state : State) (collection : Nat) (id : Int) (item : Item)
    : (state.modifyCollection collection (·.replace id item)).identities = state.identities :=
  state.identities_modifyCollection collection fun items => items.identity_change id _

theorem continues_of_identities {before after : State}
    (same : after.identities = before.identities)
    : before.Continues after := by
  intro collection items present
  have found : after.identities[collection]? = some items.identity := by
    rw [same, identities, List.getElem?_map, present, Option.map_some]
  rw [identities, List.getElem?_map] at found
  obtain ⟨later, there, identity⟩ := Option.map_eq_some_iff.mp found
  exact ⟨later, there, Items.continues_of_identity identity⟩

/-- To continue a state survives every change. By cases on the change: writing and replacing keep
all ids, inserting gives the next id, and removing ends one.
-/
theorem survives_continues (start : State) : Survives start.Continues where
  write state place index value continues :=
    continues.trans (continues_of_identities (state.identities_write place index value))
  insert state added continues :=
    continues.trans (state.continues_modifyCollection added.collection fun items =>
      items.continues_insert added.item)
  remove state collection id continues :=
    continues.trans (state.continues_modifyCollection collection fun items =>
      items.continues_remove id)
  replace state collection id item continues :=
    continues.trans (continues_of_identities (state.identities_replace collection id item))

end State

-----------------------------------------------------------------------------------------
-- What calls maintain
-----------------------------------------------------------------------------------------

namespace Simulation

/-- Chosen actions are actions of the domain, by induction on the actors that choose. Whatever the
policy answers, it picks one of the actions offered.
-/
theorem declared_of_chooseAll {μ : Type} {domain : Domain} {schema : Schema} {config : RunConfig}
    (policy : Policy μ) (state : State) (memory : μ) (actors : List Actor)
    : ∀ action ∈ ((ofDomain domain schema config).chooseAll policy state memory actors).1,
        ∃ decl ∈ domain.actions, action.template = .ofDecl decl := by
  obtain ⟨turns, asks, _, chosen⟩ :=
    asks_of_chooseAll (ofDomain domain schema config) policy state memory actors
  rw [chosen]
  intro action member
  obtain ⟨turn, taken, picked⟩ := List.mem_filterMap.mp member
  exact (legal_of_mem_legalActions (asks.offered turn taken action picked)).1

end Simulation

namespace Domain.Maintains

variable {domain : Domain} {schema : Schema} {inv : State → Prop} {config : RunConfig}

/-- A call maintains what the domain maintains, be it a joint step with any policy or an arrival,
and also when it fails.
-/
theorem call (maintains : domain.Maintains schema inv) {progress next : Progress}
    (called : (Simulation.ofDomain domain schema config).Calls progress next)
    (start : inv progress.state)
    : inv next.state := by
  cases called with
  | step policy memory =>
      unfold Simulation.afterStep
      split
      · rename_i stepped
        obtain ⟨moved, _⟩ := Simulation.transition_of_step stepped
        exact maintains.transition (Simulation.declared_of_chooseAll policy _ memory _) moved start
      · exact start
  | arrival =>
      unfold Simulation.afterArrival
      split
      · rename_i arrived
        exact maintains.advance? arrived start
      · exact start
      · exact start

/-- Calls one after the other maintain what the domain maintains, by induction on them. -/
theorem calls (maintains : domain.Maintains schema inv) {progress later : Progress}
    (called
      : Relation.ReflTransGen (Simulation.ofDomain domain schema config).Calls progress later)
    (start : inv progress.state)
    : inv later.state := by
  induction called with
  | refl => exact start
  | tail _ last kept => exact maintains.call last kept

end Domain.Maintains

-----------------------------------------------------------------------------------------
-- Whole simulations
-----------------------------------------------------------------------------------------

/-- The effects that write to a place or replace an item leave all ids as they are, also where they
fail: one that fails has changed nothing.
-/
theorem Update.identities_leave {schema : Schema} (limit : Nat) (store : Store)
    : (∀ place name index value,
        (((assign place name index value).run schema limit).leave store).state.identities
          = store.state.identities)
      ∧ ∀ entity collection id fields,
          (((replace entity collection id fields).run schema limit).leave store).state.identities
            = store.state.identities := by
  let same (state : State) : Prop := state.identities = store.state.identities
  constructor
  · intro place name index value
    have kept : Execution.Maintains same ((assign place name index value).run schema limit) :=
      .assign limit fun state id found before =>
        (state.identities_write place id found).trans before
    exact kept.leave (fun _ _ stopped => stopped) rfl
  · intro entity collection id fields
    have kept
        : Execution.Maintains same ((replace entity collection id fields).run schema limit) :=
      .replace limit fun state found item before =>
        (state.identities_replace collection found item).trans before
    exact kept.leave (fun _ _ stopped => stopped) rfl

namespace Simulation

/-- The ids of items are stable over whole simulations of accepted problems. At the start a
collection has the items of its rows in order, with the ids from zero on. Whatever joint steps and
arrivals are called, with any policies and whether they succeed or fail, the next id of a collection
never falls back, its live ids lie below it, and an id that was given and is not live at some time
is live at no later time. Writing to a place and replacing an item change no ids.
-/
theorem ids_never_return {source : List Char} {domain : Domain} {problem : Problem}
    {schema : Schema} (read : Domain.ofText source = .ok domain)
    (laid : Schema.ofProblem domain problem = .ok schema) (config : RunConfig)
    : (∀ (collection : Nat) (layout : CollectionLayout),
        schema.collections[collection]? = some layout
          → ∃ items, schema.initial.collections[collection]? = some items
              ∧ items.HoldsRows layout (StartEntry.rows problem.initial layout.name))
      ∧ (∀ earlier later,
          Relation.ReflTransGen (ofDomain domain schema config).Calls
            (ofDomain domain schema config).start earlier
          → Relation.ReflTransGen (ofDomain domain schema config).Calls earlier later
          → ∀ collection < schema.collections.length, ∃ before after : Items,
              earlier.state.collections[collection]? = some before
              ∧ later.state.collections[collection]? = some after
              ∧ before.nextId ≤ after.nextId
              ∧ (∀ id ∈ after.ids, 0 ≤ id ∧ id < after.nextId)
              ∧ ∀ id : Int, 0 ≤ id → id < before.nextId → id ∉ before.ids → id ∉ after.ids)
      ∧ ∀ limit store,
          (∀ place name index value,
            (((Update.assign place name index value).run schema limit).leave store).state.identities
              = store.state.identities)
          ∧ ∀ entity collection id fields,
              (((Update.replace entity collection id fields).run schema limit).leave
                store).state.identities
                = store.state.identities := by
  have loaded := loaded_of_accepted read laid
  have rows (collection : Nat) (layout : CollectionLayout)
      (known : schema.collections[collection]? = some layout) :=
    Schema.holdsRows_of_ofProblem loaded.coherent (Domain.linked_of_ofText read) laid known
  have continues (progress later : Progress)
      (called : Relation.ReflTransGen (ofDomain domain schema config).Calls progress later)
      : progress.state.Continues later.state :=
    ((State.survives_continues _).maintains loaded.coherent schema).calls called (.refl _)
  refine ⟨rows, ?_, fun limit store => Update.identities_leave limit store⟩
  intro earlier later reached called collection inside
  obtain ⟨initial, present, _⟩ := rows collection _ (List.getElem?_eq_getElem inside)
  obtain ⟨before, found, _⟩ := continues _ _ reached collection initial present
  obtain ⟨after, last, continued⟩ := continues _ _ called collection before found
  refine ⟨before, after, found, last, continued.grows, ?_, ?_⟩
  · exact fun id live => Items.bounds_of_contains ((after.mem_ids_iff id).mp live)
  · intro id _ below dead
    rw [Items.mem_ids_iff, Bool.not_eq_true] at dead ⊢
    exact continued.retires id below dead

/-- A wharf from which cranes ship crates, and where a crate is unloaded after every joint step. -/
def wharfText : List Char :=
  ["Start Domain:", "Entities:", "Crane, Crate", "End Entities", "Variables:",
    "var sent INT - Crane", "items Crate var weight INT", "End Variables", "Actions:",
    "Ship: c - Crane, k - Crate", "Effects:", "Crate remove: k", "sent c: sent c + weight k",
    "Cost:", "8 / sent c", "End Action", "End Actions", "EnvSteps:", "Unload:", "Effects:",
    "Crate add: (1)", "End Step", "End EnvSteps", "End Domain"].flatMap fun line =>
    line.toList ++ ['\n']

def wharfProblem : Problem :=
  ⟨[⟨"Crane", [⟨none, .int 2, 1⟩], 1⟩,
      ⟨"Crate", [⟨none, .tuple [.int 4], 2⟩, ⟨none, .tuple [.int 0], 3⟩], 2⟩],
    [[⟨"Crate", [⟨none, .tuple [.int 6], 4⟩], 4⟩]]⟩

/-- The domain and the schema of the wharf, and the progress after a joint step and an arrival. The
first crane ships the second crate, which has no weight, and fails; the second ships the first
crate.
-/
def wharfRun : Option (Domain × Schema × Progress) := do
  let (domain, schema) ← load? wharfText wharfProblem
  let simulation := ofDomain domain schema ⟨1, 0, true⟩
  return (domain, schema,
    simulation.afterArrival (simulation.afterStep script [1, 0] simulation.start))

/-- The run of the wharf makes two calls from the start of an accepted problem. -/
theorem calls_of_wharfRun {domain : Domain} {schema : Schema} {progress : Progress}
    (run : wharfRun = some (domain, schema, progress))
    : Domain.ofText wharfText = .ok domain ∧ Schema.ofProblem domain wharfProblem = .ok schema
      ∧ Relation.ReflTransGen (ofDomain domain schema ⟨1, 0, true⟩).Calls
        (ofDomain domain schema ⟨1, 0, true⟩).start progress := by
  unfold wharfRun at run
  obtain ⟨⟨found, layout⟩, loaded, run⟩ := Option.bind_eq_some_iff.mp run
  have same := Option.some.inj run
  simp only [Prod.mk.injEq] at same
  obtain ⟨rfl, rfl, rfl⟩ := same
  obtain ⟨read, laid⟩ := accepted_of_load? loaded
  exact ⟨read, laid, (Relation.ReflTransGen.single (.step script [1, 0] _)).tail (.arrival _)⟩

/-- Witness: the wharf ends with three crates, of which one was there at the start. The id of the
crate that was shipped is in use at no later time.
-/
theorem ids_never_return_at_wharf
    : ∃ domain schema progress, Domain.ofText wharfText = .ok domain
        ∧ Schema.ofProblem domain wharfProblem = .ok schema
        ∧ Relation.ReflTransGen (ofDomain domain schema ⟨1, 0, true⟩).Calls
          (ofDomain domain schema ⟨1, 0, true⟩).start progress
        ∧ schema.initial.identities = [([0, 1], 2)] ∧ progress.state.identities = [([1, 2, 3], 4)]
        ∧ ∀ later, Relation.ReflTransGen (ofDomain domain schema ⟨1, 0, true⟩).Calls progress later
            → ∃ items : Items, later.state.collections[0]? = some items ∧ 0 ∉ items.ids := by
  have shape
      : wharfRun.map (fun (_, schema, progress) =>
          (schema.initial.identities, progress.state.identities, schema.collections.length))
        = some ([([0, 1], 2)], [([1, 2, 3], 4)], 1) := by
    decide +kernel
  obtain ⟨⟨domain, schema, progress⟩, run, same⟩ := Option.map_eq_some_iff.mp shape
  simp only [Prod.mk.injEq] at same
  obtain ⟨initial, final, length⟩ := same
  obtain ⟨read, laid, reached⟩ := calls_of_wharfRun run
  refine ⟨domain, schema, progress, read, laid, reached, initial, final, fun later called => ?_⟩
  obtain ⟨before, after, found, last, _, _, retires⟩ :=
    (ids_never_return read laid ⟨1, 0, true⟩).2.1 progress later reached called 0 (by omega)
  have identity : before.identity = ([1, 2, 3], 4) := by
    have first := congrArg (·[0]?) final
    simp only [State.identities, List.getElem?_map, found, Option.map_some] at first
    exact Option.some.inj first
  obtain ⟨ids, next⟩ := Prod.mk.inj identity
  refine ⟨after, last, retires 0 (Int.le_refl 0) ?_ ?_⟩
  · rw [next]
    decide
  · rw [ids]
    decide

end Simulation

end Dispatch
