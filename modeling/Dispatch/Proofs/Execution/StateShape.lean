import Dispatch.Proofs.Execution.ScopedRuns
import Dispatch.Proofs.Layout.DeclaredStorage

/-!
Running scoped effects keeps a state well formed, also where it stops early, and never fails because
of storage that does not exist. Values of slots play no part in this.
-/

namespace Dispatch

open Execution

/-- The early stop is not due to storage that does not exist or may not be written. -/
def Halt.SparesStorage (schema : Schema) (halt : Halt) : Prop :=
  ∀ error, halt = .failed error → ¬ error.OfStorage schema

/-- A computation that fails spares storage when its error does, as the error is all that it stops
with.
-/
theorem Halt.sparesStorage_failed {schema : Schema} {error : EvalError}
    (other : ¬ error.OfStorage schema)
    : (Halt.failed error).SparesStorage schema := by
  rintro _ ⟨⟩
  exact other

def Store.Formed (schema : Schema) (store : Store) : Prop := store.state.WellFormed schema

/-- An early stop leaves a well-formed state, and its reason spares storage. -/
def Halt.StopsFormed (schema : Schema) (halt : Halt) (store : Store) : Prop :=
  store.Formed schema ∧ halt.SparesStorage schema

/-- Where a check of a well-formed store can only fail in ways that spare storage, so can a
computation that stops there, and it leaves the store well formed.
-/
theorem Store.Formed.stops {schema : Schema} {store : Store} {α : Type}
    {result : Except EvalError α} (formed : store.Formed schema)
    (fails : FailsOnly (¬ ·.OfStorage schema) result)
    : FailsOnly (fun error => (Halt.failed error).StopsFormed schema store) result :=
  fails.mono fun _ other => ⟨formed, Halt.sparesStorage_failed other⟩

namespace Loaded

variable {domain : Domain} {schema : Schema}

/-- In a well-formed state declared names fail in ways that spare storage: their storage exists, so
a read can only miss an item or an index.
-/
theorem permits (loaded : Loaded domain schema) {scope : Scope} {store : Store}
    (formed : store.Formed schema)
    : Expr.Permits schema ⟨domain.vocabulary, scope⟩ store
        (fun error => (Halt.failed error).StopsFormed schema store) where
  values _ ofValues :=
    ⟨formed, Halt.sparesStorage_failed (EvalError.not_ofStorage_of_ofValues ofValues)⟩
  slots _ _ _ _ _ := ⟨formed, Halt.sparesStorage_failed id⟩
  reads _ name index named :=
    formed.stops (loaded.read_fails formed (loaded.declaredBy_of_place? named) name index)

/-- A new item of declared fields fits its collection, or fails in a way that spares storage. It has
as many fields as the collection, and each was checked against the kind of its own.
-/
theorem meets_newItem (loaded : Loaded domain schema) {scope : Scope} {entity collection : Nat}
    {fields : List Expr} (dynamic : domain.vocabulary.collection? entity = some collection)
    (complete : fields.length = domain.vocabulary.fieldCount collection)
    (resolved : Expr.AllScoped ⟨domain.vocabulary, scope⟩ fields)
    : Meets (Store.Formed schema) (observe fun store => store.newItem schema collection fields)
        (fun item store => store.Formed schema
          ∧ ∀ layout, schema.collections[collection]? = some layout
              → item.Fits schema collection layout)
        (Halt.StopsFormed schema) := by
  obtain ⟨layout, known⟩ := loaded.layout_of_collection? dynamic
  refine .observe ?_ ?_
  · intro store formed
    refine Store.newItem_fails (loaded.permits formed) resolved ?_ ?_
    · intro missing
      rw [known] at missing
      cases missing
    · intro kind name
      exact ⟨formed, Halt.sparesStorage_failed id⟩
  · intro store item formed built
    exact ⟨formed, loaded.fits_of_newItem complete built⟩

/-- Checking for an item of a dynamic entity type never fails for want of the collection, which the
schema has laid out.
-/
theorem checkItem_fails (loaded : Loaded domain schema) {entity collection : Nat}
    (dynamic : domain.vocabulary.collection? entity = some collection) (state : State) (id : Int)
    : FailsOnly (¬ ·.OfStorage schema) (state.checkItem schema collection id) := by
  obtain ⟨layout, known⟩ := loaded.layout_of_collection? dynamic
  unfold State.checkItem
  split
  · exact .ok _
  · exact .error (unknownItem_of_layout known _)

/-- An effect that runs no others keeps the state well formed, by cases on the effect. -/
theorem meets_simple (loaded : Loaded domain schema) {scope : Scope} {update : Update} (limit : Nat)
    (resolved : update.Scoped ⟨domain.vocabulary, scope⟩) (simple : update.IsSimple)
    : Meets (Store.Formed schema) (update.run schema limit) (fun _ => Store.Formed schema)
        (Halt.StopsFormed schema) := by
  have number {expr : Expr} (known : expr.Scoped ⟨domain.vocabulary, scope⟩)
      : Meets (Store.Formed schema) (observe fun store => expr.evalInt schema store)
          (fun _ => Store.Formed schema) (Halt.StopsFormed schema) :=
    .look fun _ formed => Expr.evalInt_fails (loaded.permits formed) known
  have anything {expr : Expr} (known : expr.Scoped ⟨domain.vocabulary, scope⟩)
      : Meets (Store.Formed schema) (observe fun store => expr.eval schema store)
          (fun _ => Store.Formed schema) (Halt.StopsFormed schema) :=
    .look fun _ formed => Expr.eval_fails (loaded.permits formed) expr known
  cases update with
  | assign place name index value =>
      obtain ⟨⟨named, mutable⟩, indexKnown, valueKnown⟩ := resolved
      have declared := loaded.declaredBy_of_place? named
      rw [Update.run]
      refine .bind (number indexKnown) fun position => .bind (anything valueKnown) fun found => ?_
      refine .change (fun _ formed => ?_) fun _ formed allowed => formed.write allowed
      exact formed.stops
        (loaded.checkWrite_fails formed declared mutable name position found)
  | assignLocal slot name value =>
      obtain ⟨_, valueKnown⟩ := resolved
      rw [Update.run]
      exact .bind (anything valueKnown) fun _ => .modify fun _ formed => formed
  | insert entity collection fields =>
      obtain ⟨dynamic, complete, fieldsKnown⟩ := resolved
      obtain ⟨layout, known⟩ := loaded.layout_of_collection? dynamic
      rw [Update.run]
      refine .bind (loaded.meets_newItem dynamic complete fieldsKnown) fun item => ?_
      refine .change (fun _ formed => ?_) fun _ formed _ => formed.1.addItem formed.2
      refine formed.1.stops ?_
      unfold State.checkCollection
      split
      · exact .ok _
      · exact .error (unknownItem_of_layout known _)
  | remove entity collection id =>
      obtain ⟨dynamic, idKnown⟩ := resolved
      rw [Update.run]
      refine .bind (number idKnown) fun found => ?_
      refine .change (fun store formed => ?_) fun _ formed _ => formed.removeItem collection found
      exact formed.stops (loaded.checkItem_fails dynamic store.state found)
  | replace entity collection id fields =>
      obtain ⟨dynamic, idKnown, complete, fieldsKnown⟩ := resolved
      rw [Update.run]
      refine .bind (number idKnown) fun found => ?_
      refine .bind (loaded.meets_newItem dynamic complete fieldsKnown) fun item => ?_
      refine .change (fun store formed => ?_) fun _ formed _ =>
        formed.1.replaceItem found formed.2
      exact formed.1.stops (loaded.checkItem_fails dynamic store.state found)
  | bind | branch | forEach | loop => exact simple.elim

/-- Running scoped effects keeps the state well formed, by the rule for effects that run others from
the one for those that run none. Bindings are no part of the shape, so they may change.
-/
theorem keeps_formed (loaded : Loaded domain schema)
    : Update.Keeps schema domain.vocabulary (fun _ => Store.Formed schema)
        (Halt.StopsFormed schema) where
  simple limit resolved simple := loaded.meets_simple limit resolved simple
  permits formed := loaded.permits formed
  bind _ _ _ formed := formed
  unbind formed := formed
  shrink _ formed := formed
  endless formed := ⟨formed, nofun⟩

end Loaded

end Dispatch
