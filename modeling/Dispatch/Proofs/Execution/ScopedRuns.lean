import Dispatch.Proofs.Execution.Triple
import Dispatch.Proofs.Scoping.EffectScopes

/-!
Running scoped effects keeps a condition on the store that may depend on the scope in force. It
suffices that the condition is kept by the effects that run no others, survives the binding of the
next slot and the end of a scope, and tells how names may fail; nesting and loops need nothing more.
-/

namespace Dispatch.Update

open Execution

-----------------------------------------------------------------------------------------
-- Scopes only grow
-----------------------------------------------------------------------------------------

mutual

/-- An effect keeps the slots that are in force before it, by induction on the effect: a binding
puts its name behind them, and its body goes on from there.
-/
theorem prefix_scopeAfter (scope : Scope) (update : Update)
    : scope.entries <+: (update.scopeAfter scope).entries := by
  cases update with
  | bind slot name value body =>
      rw [scopeAfter]
      exact (List.prefix_append _ _).trans (prefix_bodyScope (scope.push name .temporary) body)
  | _ => exact List.prefix_rfl

/-- A body keeps the slots that are in force before it, by induction on the body. -/
theorem prefix_bodyScope (scope : Scope) (updates : List Update)
    : scope.entries <+: (bodyScope scope updates).entries := by
  match updates with
  | [] => exact List.prefix_rfl
  | [update] => exact prefix_scopeAfter scope update
  | _ :: next :: rest => exact prefix_bodyScope scope (next :: rest)

end

-----------------------------------------------------------------------------------------
-- Kept conditions
-----------------------------------------------------------------------------------------

def IsSimple : Update → Prop
  | .assign .. | .assignLocal .. | .insert .. | .remove .. | .replace .. => True
  | .bind .. | .branch .. | .forEach .. | .loop .. => False

/-- A condition on stores, given the scope in force, that running scoped effects keeps, and a
condition on early stops that follows from it.
-/
structure Keeps (schema : Schema) (vocabulary : Vocabulary) (inv : Scope → Store → Prop)
    (fail : Halt → Store → Prop) : Prop where
  simple
    : ∀ {scope} {update : Update} limit, update.Scoped ⟨vocabulary, scope⟩ → update.IsSimple
        → Meets (inv scope) (update.run schema limit) (fun _ => inv scope) fail
  permits
    : ∀ {scope store}, inv scope store
        → Expr.Permits schema ⟨vocabulary, scope⟩ store (fun error => fail (.failed error) store)
  bind
    : ∀ {scope : Scope} {store : Store} name kind value, inv scope store
        → inv (scope.push name kind) (store.bind scope.size value)
  unbind : ∀ {scope : Scope} {store : Store}, inv scope store → inv scope (store.unbind scope.size)
  shrink
    : ∀ {small large : Scope} {store}, small.entries <+: large.entries → inv large store
        → inv small store
  endless : ∀ {scope store}, inv scope store → fail .endless store

namespace Keeps

variable {schema : Schema} {vocabulary : Vocabulary} {inv : Scope → Store → Prop}
  {fail : Halt → Store → Prop}

/-- Two conditions that scoped effects keep are kept together. -/
theorem and {otherInv : Scope → Store → Prop} {otherFail : Halt → Store → Prop}
    (left : Keeps schema vocabulary inv fail) (right : Keeps schema vocabulary otherInv otherFail)
    : Keeps schema vocabulary (fun scope store => inv scope store ∧ otherInv scope store)
        (fun halt store => fail halt store ∧ otherFail halt store) where
  simple limit resolved simple :=
    (left.simple limit resolved simple).and (right.simple limit resolved simple)
  permits holds := (left.permits holds.1).and (right.permits holds.2)
  bind name kind value holds :=
    ⟨left.bind name kind value holds.1, right.bind name kind value holds.2⟩
  unbind holds := ⟨left.unbind holds.1, right.unbind holds.2⟩
  shrink shorter holds := ⟨left.shrink shorter holds.1, right.shrink shorter holds.2⟩
  endless holds := ⟨left.endless holds.1, right.endless holds.2⟩

/-- What an effect keeps for the scope after it, it keeps for the scope before it, since the scope
after it continues the one before.
-/
theorem restore (keeps : Keeps schema vocabulary inv fail) {limit : Nat} {scope : Scope}
    {update : Update}
    (ran
      : Meets (inv scope) (update.run schema limit) (fun _ => inv (update.scopeAfter scope)) fail)
    : Meets (inv scope) (update.run schema limit) (fun _ => inv scope) fail :=
  ran.weaken (fun _ holds => holds)
    fun _ _ holds => keeps.shrink (prefix_scopeAfter scope update) holds

/-- The test of a condition keeps what it permits to fail, as looking at the store changes nothing.
-/
theorem test (keeps : Keeps schema vocabulary inv fail) {scope : Scope} {condition : Expr}
    (resolved : condition.Scoped ⟨vocabulary, scope⟩)
    : Meets (inv scope) (observe fun store => condition.evalBool schema store)
        (fun _ => inv scope) fail :=
  .look fun _ holds => Expr.evalBool_fails (keeps.permits holds) resolved

mutual

/-- Running a scoped effect keeps the condition and reaches the scope after it, by induction on the
effect.

The rules for effects that run no others, for binding a slot and for unbinding it are all that a
condition has to bring along; loops, branches and bindings follow from these here, once for all
conditions.
-/
theorem run (keeps : Keeps schema vocabulary inv fail) (limit : Nat) {scope : Scope}
    (update : Update) (resolved : update.Scoped ⟨vocabulary, scope⟩)
    : Meets (inv scope) (update.run schema limit) (fun _ => inv (update.scopeAfter scope))
        fail := by
  cases update with
  | assign place name index value => exact keeps.simple limit resolved trivial
  | assignLocal slot name value => exact keeps.simple limit resolved trivial
  | insert entity collection fields => exact keeps.simple limit resolved trivial
  | remove entity collection id => exact keeps.simple limit resolved trivial
  | replace entity collection id fields => exact keeps.simple limit resolved trivial
  | bind slot name value body =>
      obtain ⟨rfl, valueResolved, bodyResolved⟩ := resolved
      rw [Update.run]
      have evaluated
          : Meets (inv scope) (observe fun store => value.eval schema store) (fun _ => inv scope)
              fail :=
        .look fun _ holds => Expr.eval_fails (keeps.permits holds) value valueResolved
      refine .bind evaluated fun found => ?_
      exact .modify_bind (fun _ holds => keeps.bind name .temporary found holds)
        (keeps.runAll limit body bodyResolved)
  | branch condition thenBody elseBody =>
      obtain ⟨conditionResolved, thenResolved, elseResolved⟩ := resolved
      rw [Update.run]
      refine .bind (keeps.test conditionResolved) fun holds => ?_
      split
      · exact keeps.body limit thenBody thenResolved
      · exact keeps.body limit elseBody elseResolved
  | forEach slot name entity filter body =>
      obtain ⟨rfl, _, filterResolved, bodyResolved⟩ := resolved
      rw [Update.run]
      refine .get_bind fun seen => ?_
      have filtered
          : Meets (inv (scope.push name (.entity entity)))
              (observe fun store => Expr.passes schema store filter)
              (fun _ => inv (scope.push name (.entity entity))) fail :=
        .look fun _ holds => Expr.passes_fails (keeps.permits holds) filterResolved
      have looped
          : Meets (inv scope)
              (forIds schema scope.size entity
                (observe fun store => Expr.passes schema store filter)
                (Update.runAll schema limit body) (seen.state.ids schema entity))
              (fun _ => inv scope) fail :=
        .forIds (fun _ id holds => keeps.bind name (.entity entity) (.int id) holds) filtered
          (keeps.body limit body bodyResolved)
          (fun _ holds => keeps.shrink (List.prefix_append _ _) holds) _
      refine .bind (looped.weaken (fun _ holds => holds.2) fun _ _ holds => holds) fun _ => ?_
      exact .modify fun _ holds => keeps.unbind holds
  | loop condition body =>
      obtain ⟨conditionResolved, bodyResolved⟩ := resolved
      rw [Update.run]
      exact .whileHolds (keeps.test conditionResolved) (keeps.body limit body bodyResolved)
        (fun _ holds => keeps.endless holds) limit

/-- Running a scoped body keeps the condition, whose scope ends with the body. -/
theorem body (keeps : Keeps schema vocabulary inv fail) (limit : Nat) {scope : Scope}
    (updates : List Update) (resolved : BodyScoped ⟨vocabulary, scope⟩ updates)
    : Meets (inv scope) (Update.runAll schema limit updates) (fun _ => inv scope) fail :=
  (keeps.runAll limit updates resolved).weaken (fun _ holds => holds)
    fun _ _ holds => keeps.shrink (prefix_bodyScope scope updates) holds

/-- Running scoped effects in order keeps the condition and reaches the scope after them, by
induction on the effects.
-/
theorem runAll (keeps : Keeps schema vocabulary inv fail) (limit : Nat) {scope : Scope}
    (updates : List Update) (resolved : BodyScoped ⟨vocabulary, scope⟩ updates)
    : Meets (inv scope) (Update.runAll schema limit updates)
        (fun _ => inv (bodyScope scope updates)) fail := by
  match updates with
  | [] => exact .pure fun _ holds => holds
  | [update] =>
      rw [Update.runAll]
      exact .bind (keeps.run limit update resolved.1) fun _ => .pure fun _ holds => holds
  | update :: next :: rest =>
      rw [Update.runAll]
      have first := keeps.restore (keeps.run limit update resolved.1)
      exact .bind first fun _ => keeps.runAll limit (next :: rest) resolved.2

end

/-- A scoped cost keeps the condition: its effects do, and its value is looked up in the scope
behind them.
-/
theorem cost (keeps : Keeps schema vocabulary inv fail) (limit : Nat) {scope : Scope} {cost : Cost}
    (resolved : cost.Scoped ⟨vocabulary, scope⟩)
    : Meets (inv scope) (cost.run schema limit) (fun _ => inv scope) fail := by
  obtain ⟨updatesResolved, valueResolved⟩ := resolved
  refine .bind (keeps.runAll limit cost.updates updatesResolved) fun _ => ?_
  refine .observe (fun _ holds => Expr.evalInt_fails (keeps.permits holds) valueResolved) ?_
  intro _ _ holds _
  exact keeps.shrink (prefix_bodyScope scope cost.updates) holds

end Keeps

end Dispatch.Update
