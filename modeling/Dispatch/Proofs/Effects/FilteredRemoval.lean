import Mathlib
import Dispatch.Proofs.Effects.SingleEffects
import Dispatch.Proofs.Execution.RunFrame
import Dispatch.Proofs.Layout.NameResolution
import Dispatch.Proofs.Simulation.ItemIdentity

/-!
Removing the items of an entity type that pass a filter. The filter of an item is evaluated after
earlier items are gone, but a filter that looks at no other item of the type does not notice; so the
items that are left are those that did not pass it before the loop.
-/

namespace Dispatch

open Execution

-----------------------------------------------------------------------------------------
-- What a filter looks at
-----------------------------------------------------------------------------------------

namespace Expr

mutual

/-- The expression and all expressions within it. -/
def subterms : Expr → List Expr
  | .int value => [.int value]
  | .bool value => [.bool value]
  | .entityType entity name => [.entityType entity name]
  | .param slot name => [.param slot name]
  | .tuple elements => .tuple elements :: subtermsAll elements
  | .read place name index => .read place name index :: index.subterms
  | .isLive entity name id => .isLive entity name id :: id.subterms
  | .not operand => .not operand :: operand.subterms
  | .neg operand => .neg operand :: operand.subterms
  | .binary op left right => .binary op left right :: (left.subterms ++ right.subterms)

def subtermsAll : List Expr → List Expr
  | [] => []
  | element :: rest => element.subterms ++ subtermsAll rest

end

/-- Among expressions, fields of the collection are read at the id alone, and it is not asked which
ids of the entity type are live.
-/
structure KeepTo (schema : Schema) (store : Store) (entity collection : Nat) (id : Int)
    (exprs : List Expr) : Prop where
  fields
    : ∀ slot constant name index, .read (.field collection slot constant) name index ∈ exprs
        → index.eval schema store = .ok (.int id)
  ids : ∀ name index, .isLive entity name index ∉ exprs

namespace KeepTo

variable {schema : Schema} {store : Store} {entity collection : Nat} {id : Int}
  {exprs fewer : List Expr}

theorem mono (keeps : KeepTo schema store entity collection id exprs) (subset : fewer ⊆ exprs)
    : KeepTo schema store entity collection id fewer :=
  ⟨fun slot constant name index member =>
      keeps.fields slot constant name index (subset member),
    fun name index member => keeps.ids name index (subset member)⟩

/-- Expressions that read the fields with the iterator as their index keep to the item of every id
to which it is bound.
-/
theorem of_iterator {iterator : Nat}
    (fields
      : ∀ slot constant name index, .read (.field collection slot constant) name index ∈ exprs
          → ∃ title, index = .param iterator title)
    (ids : ∀ name index, .isLive entity name index ∉ exprs) (store : Store) (id : Int)
    : KeepTo schema (store.bind iterator (.int id)) entity collection id exprs := by
  refine ⟨fun slot constant name index member => ?_, ids⟩
  obtain ⟨title, rfl⟩ := fields slot constant name index member
  simp only [eval, Store.bind, Bindings.get?_bind, if_true]

end KeepTo

section

variable {schema : Schema} {entity collection : Nat} {id : Int} {left right : Store}

mutual

/-- Stores with the same item of the id give the same result where no other item of the collection
is looked at, by induction on the expression.

They may differ in the other items of the collection, so the general rule for stores that agree on
what an expression reads does not apply: the expression does read the collection.
-/
theorem eval_sameItem
    (agree : Store.Agree Set.univ {cell | cell ≠ .items collection} left right)
    (item : left.state.item? collection id = right.state.item? collection id)
    (sole : ∀ other, schema.storage? other = some (.dynamic collection) → other = entity)
    (expr : Expr) (keeps : KeepTo schema left entity collection id expr.subterms)
    : expr.eval schema left = expr.eval schema right := by
  cases expr with
  | int value => rfl
  | bool value => rfl
  | entityType other name => rfl
  | param slot name =>
      have same := agree.slots slot (Set.mem_univ slot)
      simp only [eval, same]
  | tuple elements =>
      have values := evalAll_sameItem agree item sole elements
        (keeps.mono (List.subset_cons_self _ _))
      simp only [eval, values]
  | read place name index =>
      have indices := eval_sameItem agree item sole index
        (keeps.mono (List.subset_cons_self _ _))
      by_cases own : place.cell? = some (.items collection)
      · cases place with
        | const slot => cases own
        | var slot => cases own
        | field found slot constant =>
            obtain rfl : found = collection := Cell.items.inj (Option.some.inj own)
            have evaluated := keeps.fields slot constant name index List.mem_cons_self
            have same : left.read schema (.field found slot constant) name id
                = right.read schema (.field found slot constant) name id := by
              rw [Store.read_field, Store.read_field, item]
            simp only [eval, ← indices, evaluated]
            exact same
      · have apart : ∀ cell ∈ place.cell?, cell ∈ {cell | cell ≠ .items collection} := by
          rintro cell member rfl
          exact own member
        simp only [eval, indices, agree.read apart]
  | isLive other name index =>
      have indices := eval_sameItem agree item sole index
        (keeps.mono (List.subset_cons_self _ _))
      have apart : ∀ cell ∈ schema.cell? other, left.state.SameAt right.state cell := by
        intro cell member
        refine agree.cells cell fun own => ?_
        subst own
        unfold Schema.cell? at member
        split at member
        · rename_i found stored
          obtain rfl : found = collection := Cell.items.inj (Option.some.inj member)
          obtain rfl := sole other stored
          exact keeps.ids name index List.mem_cons_self
        · cases member
      simp only [eval, indices, State.hasId_agree apart]
  | not operand =>
      have values := eval_sameItem agree item sole operand
        (keeps.mono (List.subset_cons_self _ _))
      simp only [eval, values]
  | neg operand =>
      have values := eval_sameItem agree item sole operand
        (keeps.mono (List.subset_cons_self _ _))
      simp only [eval, values]
  | binary op first second =>
      have within := keeps.mono (List.subset_cons_self _ _)
      exact eval_binary_congr op
        (eval_sameItem agree item sole first (within.mono (List.subset_append_left _ _)))
        (eval_sameItem agree item sole second (within.mono (List.subset_append_right _ _)))

theorem evalAll_sameItem
    (agree : Store.Agree Set.univ {cell | cell ≠ .items collection} left right)
    (item : left.state.item? collection id = right.state.item? collection id)
    (sole : ∀ other, schema.storage? other = some (.dynamic collection) → other = entity)
    (exprs : List Expr) (keeps : KeepTo schema left entity collection id (subtermsAll exprs))
    : evalAll schema left exprs = evalAll schema right exprs := by
  cases exprs with
  | nil => rfl
  | cons element rest =>
      have first := eval_sameItem agree item sole element
        (keeps.mono (List.subset_append_left _ _))
      have others := evalAll_sameItem agree item sole rest
        (keeps.mono (List.subset_append_right _ _))
      simp only [evalAll, first, others]

end

end

end Expr

-----------------------------------------------------------------------------------------
-- Items of a dynamic entity type
-----------------------------------------------------------------------------------------

namespace State

variable {schema : Schema} {entity collection : Nat}

/-- The live ids of a dynamic entity type are those of the items of its collection, as the type is
stored there.
-/
theorem hasId_dynamic (stored : schema.storage? entity = some (.dynamic collection))
    (state : State) (id : Int)
    : state.hasId schema entity id = (state.item? collection id).isSome := by
  unfold hasId item?
  rw [stored]
  dsimp only
  cases state.collections[collection]? <;> rfl

/-- A live item passes the check. -/
theorem checkItem_eq_ok {state : State} {id : Int}
    (live : (state.item? collection id).isSome = true)
    : state.checkItem schema collection id = .ok () := by
  obtain ⟨item, found⟩ := Option.isSome_iff_exists.mp live
  obtain ⟨items, present, held⟩ := Option.bind_eq_some_iff.mp found
  have used : items.contains id = true := Option.isSome_iff_exists.mpr ⟨item, held⟩
  rw [checkItem, present]
  exact if_pos used

/-- Removing an item gives no id back: the next id of its collection stays as it is. -/
theorem nextId_remove (state : State) (id : Int)
    : (state.modifyCollection collection (·.remove id)).collections[collection]?.map (·.nextId)
      = state.collections[collection]?.map (·.nextId) := by
  rw [modifyCollection, List.getElem?_modify_eq]
  cases state.collections[collection]? with
  | none => rfl
  | some items => rfl

end State

-----------------------------------------------------------------------------------------
-- The loop
-----------------------------------------------------------------------------------------

/-- A computation that never stops early succeeds with its condition; what would stop it is excluded
from every store it may start from.
-/
theorem Execution.Meets.exists_of_never {α : Type} {pre : Store → Prop} {execution : Execution α}
    {post : α → Store → Prop} (meets : Meets pre execution post fun _ _ => False) {store : Store}
    (start : pre store)
    : ∃ value after, execution store = .ok value after ∧ post value after := by
  have reached := meets store start
  split at reached
  · exact ⟨_, _, ‹_›, reached⟩
  · exact reached.elim

/-- What the loop has come to before its rounds for the remaining ids: items with other ids are gone
if they passed the filter at the start, and nothing else is changed but the slot of the loop.
-/
structure Swept (schema : Schema) (start : Store) (slot collection : Nat) (filter : Expr)
    (remaining : List Int) (store : Store) : Prop where
  gone
    : ∀ id, filter.evalBool schema (start.bind slot (.int id)) = .ok true → id ∉ remaining
        → store.state.item? collection id = none
  stays
    : ∀ id, filter.evalBool schema (start.bind slot (.int id)) ≠ .ok true ∨ id ∈ remaining
        → store.state.item? collection id = start.state.item? collection id
  nextId
    : store.state.collections[collection]?.map (·.nextId)
        = start.state.collections[collection]?.map (·.nextId)
  cells : ∀ cell, cell ≠ .items collection → start.state.SameAt store.state cell
  slots : ∀ other, other ≠ slot → store.bindings.get? other = start.bindings.get? other

namespace Swept

variable {schema : Schema} {start store : Store} {slot entity collection : Nat} {filter : Expr}
  {id : Int} {remaining : List Int}

/-- What a loop has swept away does not depend on the slot of the loop, so binding it changes
nothing.
-/
theorem bind (swept : Swept schema start slot collection filter remaining store) (value : Value)
    : Swept schema start slot collection filter remaining (store.bind slot value) where
  gone := swept.gone
  stays := swept.stays
  nextId := swept.nextId
  cells := swept.cells
  slots other apart := by
    rw [Store.bind, Bindings.get?_bind, if_neg apart]
    exact swept.slots other apart

/-- The filter of a remaining id is as it was at the start: the rounds before have removed other
items only, and at these the filter does not look.
-/
theorem evalBool_eq (swept : Swept schema start slot collection filter remaining store)
    (member : id ∈ remaining) (bound : store.bindings.get? slot = some (.int id))
    (sole : ∀ other, schema.storage? other = some (.dynamic collection) → other = entity)
    (keeps
      : Expr.KeepTo schema (start.bind slot (.int id)) entity collection id filter.subterms)
    : filter.evalBool schema store = filter.evalBool schema (start.bind slot (.int id)) := by
  have agree
      : Store.Agree Set.univ {cell | cell ≠ .items collection} (start.bind slot (.int id))
          store := by
    refine ⟨fun other _ => ?_, swept.cells⟩
    rw [Store.bind, Bindings.get?_bind]
    split
    · rename_i same
      rw [same, bound]
    · rename_i apart
      exact (swept.slots other apart).symm
  have same := Expr.eval_sameItem agree (swept.stays id (.inr member)).symm sole filter keeps
  rw [Expr.evalBool, Expr.evalBool, same]

/-- An id whose item did not pass needs no round, as its item is to stay. -/
theorem skip (swept : Swept schema start slot collection filter (id :: remaining) store)
    (fails : filter.evalBool schema (start.bind slot (.int id)) = .ok false)
    : Swept schema start slot collection filter remaining store where
  gone other passes outside := by
    refine swept.gone other passes fun member => ?_
    rcases List.mem_cons.mp member with rfl | later
    · rw [fails] at passes
      cases passes
    · exact outside later
  stays other kept := swept.stays other (kept.imp_right (List.mem_cons_of_mem id))
  nextId := swept.nextId
  cells := swept.cells
  slots := swept.slots

/-- The item of an id that passed is removed in the round of the id; no other item is touched, and
the id does not come up again.
-/
theorem remove (swept : Swept schema start slot collection filter (id :: remaining) store)
    (passes : filter.evalBool schema (start.bind slot (.int id)) = .ok true)
    (once : id ∉ remaining)
    : Swept schema start slot collection filter remaining
        { store with state := store.state.modifyCollection collection (·.remove id) } := by
  have items (other : Int)
      : (store.state.modifyCollection collection (·.remove id)).item? collection other
        = if id = other then none else store.state.item? collection other := by
    refine (State.item?_change id _ collection other).trans ?_
    simp only [true_and, Option.bind_fun_none]
  refine ⟨fun other found outside => ?_, fun other kept => ?_, ?_, fun cell apart => ?_,
    swept.slots⟩
  · rw [items]
    split
    · rfl
    · rename_i apart
      refine swept.gone other found fun member => ?_
      exact (List.mem_cons.mp member).elim (fun same => apart same.symm) outside
  · rw [items, if_neg]
    · exact swept.stays other (kept.imp_right (List.mem_cons_of_mem id))
    · rintro rfl
      exact kept.elim (fun fails => fails passes) once
  · exact (store.state.nextId_remove id).trans swept.nextId
  · exact (swept.cells cell apart).trans
      (store.state.modifyCollection_sameAt collection _ apart).symm

/-- The body of the loop removes the item of the iterator, which is live in its own round as no
round before has removed it.
-/
theorem meets_body (limit : Nat) (name : String) (once : id ∉ remaining)
    (live : (start.state.item? collection id).isSome = true)
    (passes : filter.evalBool schema (start.bind slot (.int id)) = .ok true)
    : Meets
        (fun store =>
          Swept schema start slot collection filter (id :: remaining) store
            ∧ store.bindings.get? slot = some (.int id))
        (Update.runAll schema limit [.remove entity collection (.param slot name)])
        (fun _ => Swept schema start slot collection filter remaining) fun _ _ => False := by
  have evaluated {store : Store} (bound : store.bindings.get? slot = some (.int id))
      : (Expr.param slot name).evalInt schema store = .ok id := by
    simp only [Expr.evalInt, Expr.eval, bound]
    rfl
  rw [Update.runAll, Update.run]
  refine .bind (?_ : Meets _ _ (fun _ => Swept schema start slot collection filter remaining) _)
    fun _ => Meets.pure fun _ done => done
  refine .bind
    (.observe ?_ ?_
      : Meets _ _ (fun found store =>
          found = id ∧ Swept schema start slot collection filter (id :: remaining) store) _)
    fun found => .change ?_ ?_
  · rintro store ⟨_, bound⟩ error failed
    rw [evaluated bound] at failed
    cases failed
  · rintro store found ⟨swept, bound⟩ same
    rw [evaluated bound] at same
    exact ⟨(Except.ok.inj same).symm, swept⟩
  · rintro store ⟨rfl, swept⟩ error failed
    have present := swept.stays found (.inr List.mem_cons_self)
    rw [State.checkItem_eq_ok (present ▸ live)] at failed
    cases failed
  · rintro store ⟨rfl, swept⟩ _
    exact swept.remove passes once

/-- The loop sweeps all of its ids, by induction on them.

In each round the id is live and the filter decides it, so the loop never stops early. What the
filter says of an id in its round is what it said of it at the start, which is why the ids that are
left over are those that fail at the start.
-/
theorem meets_forIds (limit : Nat) (name : String)
    (stored : schema.storage? entity = some (.dynamic collection))
    (sole : ∀ other, schema.storage? other = some (.dynamic collection) → other = entity)
    {ids : List Int} (once : ids.Nodup)
    (live : ∀ id ∈ ids, (start.state.item? collection id).isSome = true)
    (decides
      : ∀ id ∈ ids, ∃ holds, filter.evalBool schema (start.bind slot (.int id)) = .ok holds)
    (keeps
      : ∀ id ∈ ids,
          Expr.KeepTo schema (start.bind slot (.int id)) entity collection id filter.subterms)
    : Meets (Swept schema start slot collection filter ids)
        (forIds schema slot entity (observe fun store => Expr.passes schema store (some filter))
          (Update.runAll schema limit [.remove entity collection (.param slot name)]) ids)
        (fun _ => Swept schema start slot collection filter []) fun _ _ => False := by
  induction ids with
  | nil => exact Meets.pure fun _ swept => swept
  | cons id rest ih =>
      obtain ⟨once, others⟩ := List.nodup_cons.mp once
      obtain ⟨present, live⟩ := List.forall_mem_cons.mp live
      obtain ⟨⟨holds, decided⟩, decides⟩ := List.forall_mem_cons.mp decides
      obtain ⟨keeps, keepsOthers⟩ := List.forall_mem_cons.mp keeps
      have again := ih others live decides keepsOthers
      unfold forIds
      refine .get_bind fun seen => ?_
      split
      · refine .modify_bind ?_
          (?_ : Meets (fun store =>
            Swept schema start slot collection filter (id :: rest) store
              ∧ store.bindings.get? slot = some (.int id)) _ _ _)
        · refine fun store found => ⟨found.2.bind _, ?_⟩
          rw [Store.bind, Bindings.get?_bind, if_pos rfl]
        · have tested (store : Store)
              (found
                : Swept schema start slot collection filter (id :: rest) store
                  ∧ store.bindings.get? slot = some (.int id))
              : Expr.passes schema store (some filter) = .ok holds :=
            (found.1.evalBool_eq List.mem_cons_self found.2 sole keeps).trans decided
          refine .bind
            (.observe ?_ ?_
              : Meets _ _ (fun passed store =>
                  passed = holds ∧ Swept schema start slot collection filter (id :: rest) store
                    ∧ store.bindings.get? slot = some (.int id)) _)
            fun passed => ?_
          · intro store found error failed
            rw [tested store found] at failed
            cases failed
          · intro store passed found evaluated
            rw [tested store found] at evaluated
            exact ⟨(Except.ok.inj evaluated).symm, found⟩
          · split
            · rename_i passes
              refine .bind
                (?_ : Meets _ _ (fun _ => Swept schema start slot collection filter rest) _)
                fun _ => again
              intro store found
              obtain rfl := found.1
              rw [passes] at decided
              exact meets_body limit name once present decided store found.2
            · rename_i fails
              intro store found
              obtain rfl := found.1
              rw [Bool.eq_false_iff.mpr fails] at decided
              exact again store (found.2.1.skip decided)
      · rename_i dead
        intro store found
        obtain ⟨rfl, swept⟩ := found
        rw [State.hasId_dynamic stored, swept.stays id (.inr List.mem_cons_self)] at dead
        exact absurd present dead

end Swept

-----------------------------------------------------------------------------------------
-- Removal by a filter
-----------------------------------------------------------------------------------------

/-- The items of the collection that passed the filter before are removed. Other items keep their
ids and fields, and nothing else is changed but that the slot is not bound.
-/
structure Store.RemovesPassing (schema : Schema) (slot collection : Nat) (filter : Expr)
    (before after : Store) : Prop where
  items
    : ∀ id item, after.state.item? collection id = some item
        ↔ before.state.item? collection id = some item
          ∧ filter.evalBool schema (before.bind slot (.int id)) = .ok false
  nextId
    : after.state.collections[collection]?.map (·.nextId)
        = before.state.collections[collection]?.map (·.nextId)
  collections
    : ∀ other, other ≠ collection
        → after.state.collections[other]? = before.state.collections[other]?
  mutables : after.state.mutables = before.state.mutables
  unbound : after.bindings.get? slot = none
  bindings : ∀ other, other ≠ slot → after.bindings.get? other = before.bindings.get? other

/-- A swept store in which the slot is not bound any more has lost the items that passed. -/
theorem Swept.removesPassing {schema : Schema} {start store : Store} {slot collection : Nat}
    {filter : Expr} (swept : Swept schema start slot collection filter [] store)
    (decides
      : ∀ id, (start.state.item? collection id).isSome = true
          → ∃ holds, filter.evalBool schema (start.bind slot (.int id)) = .ok holds)
    : Store.RemovesPassing schema slot collection filter start (store.unbind slot) := by
  refine ⟨fun id item => ?_, swept.nextId, fun other apart => ?_, ?_, ?_, fun other apart => ?_⟩
  · constructor
    · intro found
      have fails : filter.evalBool schema (start.bind slot (.int id)) ≠ .ok true := by
        intro passes
        have gone := swept.gone id passes List.not_mem_nil
        exact absurd (gone.symm.trans found) nofun
      have live := (swept.stays id (.inl fails)).symm.trans found
      obtain ⟨holds, decided⟩ := decides id (by rw [live]; rfl)
      cases holds with
      | true => exact absurd decided fails
      | false => exact ⟨live, decided⟩
    · rintro ⟨live, fails⟩
      refine (swept.stays id (.inl ?_)).trans live
      rw [fails]
      nofun
  · exact (swept.cells (.items other) fun same => apart (Cell.items.inj same)).symm
  · refine List.ext_getElem? fun position => ?_
    exact (swept.cells (.values position) nofun).symm
  · rw [Store.unbind, Bindings.get?_unbind, if_pos rfl]
  · rw [Store.unbind, Bindings.get?_unbind, if_neg apart]
    exact swept.slots other apart

/-- A loop over a dynamic entity type that removes the items passing a filter removes exactly those
that passed it before, where the filter decides each of them and looks at no other item of the type.

The ids are collected before the first round, so that the removals do not disturb the loop.
-/
theorem Update.removesPassing_of_forEach {source : List Char} {domain : Domain}
    {problem : Problem} {schema : Schema} (read : Domain.ofText source = .ok domain)
    (laid : Schema.ofProblem domain problem = .ok schema) {entity collection : Nat}
    (dynamic : domain.vocabulary.collection? entity = some collection) (start : Store)
    (slot : Nat) (name : String) (filter : Expr)
    (decides
      : ∀ id ∈ start.state.ids schema entity,
          ∃ holds, filter.evalBool schema (start.bind slot (.int id)) = .ok holds)
    (keeps
      : ∀ id ∈ start.state.ids schema entity,
          Expr.KeepTo schema (start.bind slot (.int id)) entity collection id filter.subterms)
    (limit : Nat)
    : ∃ after,
        (Update.forEach slot name entity (some filter)
            [.remove entity collection (.param slot name)]).run schema limit start
          = .ok () after
        ∧ Store.RemovesPassing schema slot collection filter start after := by
  have storage := (Schema.follows_of_ofProblem (Domain.coherent_of_ofText read) laid).storage
  have linked := Domain.linked_of_ofText read
  have stored := (storage entity collection).mpr dynamic
  have sole (other : Nat) (same : schema.storage? other = some (.dynamic collection))
      : other = entity :=
    linked.collection?_inj dynamic ((storage other collection).mp same)
  have live (id : Int)
      : id ∈ start.state.ids schema entity
        ↔ (start.state.item? collection id).isSome = true := by
    rw [State.mem_ids_iff, State.hasId_dynamic stored]
  have begins
      : Swept schema start slot collection filter (start.state.ids schema entity) start := by
    refine ⟨fun id _ outside => ?_, fun _ _ => rfl, rfl, fun _ _ => State.sameAt_rfl,
      fun _ _ => rfl⟩
    rw [live] at outside
    exact Option.not_isSome_iff_eq_none.mp outside
  have once := (start.state.ids_pairwise schema entity).imp Int.ne_of_lt
  have loop := Swept.meets_forIds limit name stored sole once (fun id => (live id).mp) decides keeps
  have whole
      : Meets (· = start)
          ((Update.forEach slot name entity (some filter)
            [.remove entity collection (.param slot name)]).run schema limit)
          (fun _ => Store.RemovesPassing schema slot collection filter start)
          fun _ _ => False := by
    rw [Update.run]
    refine .get_bind fun seen => ?_
    refine .bind (?_ : Meets _ _ (fun _ => Swept schema start slot collection filter []) _)
      fun _ => .modify ?_
    · rintro store ⟨rfl, rfl⟩
      exact loop _ begins
    · exact fun store swept => swept.removesPassing fun id found => decides id ((live id).mpr found)
  obtain ⟨_, after, ran, removes⟩ := whole.exists_of_never rfl
  exact ⟨after, ran, removes⟩

/-- A domain with parcels for ships, each of which has a limit. -/
def warehouseText : List Char :=
  ["Start Domain:", "Entities:", "Ship, Parcel", "End Entities", "Variables:",
    "var limit INT - Ship", "items Parcel const ship INT var weight INT", "End Variables",
    "End Domain"]
    |>.flatMap fun line => line.toList ++ ['\n']

/-- Four parcels in the warehouse, two of them above the limits of their ships. -/
def warehouseProblem : Problem :=
  ⟨[⟨"Ship", [⟨none, .int 2, 1⟩], 1⟩, ⟨"limit", [⟨none, .int 3, 2⟩, ⟨none, .int 5, 2⟩], 2⟩,
    ⟨"Parcel", [⟨none, .tuple [.int 0, .int 4], 4⟩, ⟨none, .tuple [.int 1, .int 4], 5⟩,
      ⟨none, .tuple [.int 0, .int 2], 6⟩, ⟨none, .tuple [.int 1, .int 9], 7⟩], 3⟩], []⟩

def parcelsOverLimit : List Char :=
  ["All (q - Parcel (weight q > limit (ship q) and not q = p)):", "Parcel remove: q", "End"]
    |>.flatMap fun line => line.toList ++ ['\n']

/-- The parcel is above the limit of its ship, and is not the one to keep. -/
def overLimit : Expr :=
  .binary .and
    (.binary .greater (.read (.field 0 0 false) "weight" (.param 1 "q"))
      (.read (.var 0) "limit" (.read (.field 0 0 true) "ship" (.param 1 "q"))))
    (.not (.binary .equal (.param 1 "q") (.param 0 "p")))

/-- The names that the text of the warehouse declares. -/
def warehouseVocabulary : Vocabulary where
  entities := [⟨"Ship", 0, none, none, 3⟩, ⟨"Parcel", 1, none, some 0, 3⟩]
  indices := [("Ship", 0), ("Parcel", 1)]
  collections := [1]
  fieldCounts := [2]
  names :=
    [⟨"ship", .field 0 0 true, .int⟩, ⟨"weight", .field 0 0 false, .int⟩, ⟨"limit", .var 0, .int⟩]

/-- The layout of the warehouse. -/
def warehouseSchema : Schema where
  entities := [⟨"Ship", none, .positional 2⟩, ⟨"Parcel", none, .dynamic 0⟩]
  constants := []
  mutables := [⟨⟨"limit", .int, false, some 0, none, 0, 6⟩, 2⟩]
  collections := [⟨"Parcel", 1, [⟨"ship", .int, true, 0⟩, ⟨"weight", .int, false, 0⟩]⟩]
  names := [("limit", .var 0), ("ship", .field 0 0 true), ("weight", .field 0 0 false)]
  initial :=
    ⟨[#[.int 3, .int 5]], [.numbered [⟨[.int 0], [.int 4]⟩, ⟨[.int 1], [.int 4]⟩,
      ⟨[.int 0], [.int 2]⟩, ⟨[.int 1], [.int 9]⟩]]⟩
  batches := []

/-- All parcels of the warehouse above the limits of their ships are removed, except one. -/
theorem Update.removesPassing_at_warehouse
    : ∃ domain schema after, Domain.ofText warehouseText = .ok domain
        ∧ Schema.ofProblem domain warehouseProblem = .ok schema
        ∧ ofLines ⟨domain.vocabulary, Scope.empty.push "p" (.entity 1)⟩
            (Line.ofSource parcelsOverLimit)
          = .ok [.forEach 1 "q" 1 (some overLimit) [.remove 1 0 (.param 1 "q")]]
        ∧ (Update.forEach 1 "q" 1 (some overLimit) [.remove 1 0 (.param 1 "q")]).run schema 0
            ⟨schema.initial, .ofIds [1]⟩
          = .ok () after
        ∧ Store.RemovesPassing schema 1 0 overLimit ⟨schema.initial, .ofIds [1]⟩ after
        ∧ after.state.ids schema 1 = [1, 2] := by
  have shape
      : (load? warehouseText warehouseProblem).map
          (fun loaded => (loaded.1.vocabulary, loaded.2))
        = some (warehouseVocabulary, warehouseSchema) := by
    decide +kernel
  obtain ⟨⟨domain, schema⟩, loaded, shape⟩ := Option.map_eq_some_iff.mp shape
  obtain ⟨read, laid⟩ := accepted_of_load? loaded
  obtain ⟨vocabulary, same⟩ := Prod.mk.inj shape
  obtain rfl : schema = warehouseSchema := same
  replace vocabulary : domain.vocabulary = warehouseVocabulary := vocabulary
  have parsed
      : ofLines ⟨warehouseVocabulary, Scope.empty.push "p" (.entity 1)⟩
          (Line.ofSource parcelsOverLimit)
        = .ok [.forEach 1 "q" 1 (some overLimit) [.remove 1 0 (.param 1 "q")]] := by
    cbv
  have dynamic : domain.vocabulary.collection? 1 = some 0 := by rw [vocabulary]; rfl
  have decides
      : ∀ id ∈ [0, 1, 2, 3], ∃ holds,
          overLimit.evalBool warehouseSchema
            (Store.bind ⟨warehouseSchema.initial, .ofIds [1]⟩ 1 (.int id)) = .ok holds := by
    simp only [List.forall_mem_cons]
    exact ⟨⟨true, rfl⟩, ⟨false, rfl⟩, ⟨false, rfl⟩, ⟨true, rfl⟩, List.forall_mem_nil _⟩
  have keeps (store : Store) (id : Int)
      : Expr.KeepTo warehouseSchema (store.bind 1 (.int id)) 1 0 id overLimit.subterms := by
    refine Expr.KeepTo.of_iterator ?_ ?_ store id
    · intro slot constant name index member
      simp [overLimit, Expr.subterms] at member
      rcases member with ⟨_, _, rfl⟩ | ⟨_, _, rfl⟩ <;> exact ⟨"q", rfl⟩
    · simp [overLimit, Expr.subterms]
  obtain ⟨after, ran, removes⟩ :=
    removesPassing_of_forEach read laid dynamic ⟨warehouseSchema.initial, .ofIds [1]⟩ 1 "q"
      overLimit decides (fun id _ => keeps _ id) 0
  have left
      : (Update.forEach 1 "q" 1 (some overLimit) [.remove 1 0 (.param 1 "q")]).run warehouseSchema 0
          ⟨warehouseSchema.initial, .ofIds [1]⟩
        = .ok () ⟨⟨[#[.int 3, .int 5]],
            [⟨[(1, ⟨[.int 1], [.int 4]⟩), (2, ⟨[.int 0], [.int 2]⟩)], 4, by decide, by decide⟩]⟩,
            ⟨[some (.int 1), none]⟩⟩ :=
    rfl
  obtain rfl := (EStateM.Result.ok.inj (left.symm.trans ran)).2
  refine ⟨domain, warehouseSchema, _, read, laid, ?_, ran, removes, rfl⟩
  rw [vocabulary]
  exact parsed

end Dispatch
