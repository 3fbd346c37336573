import Dispatch.Proofs.Evaluation.EvalFaults
import Dispatch.Proofs.Evaluation.StoreDependence

/-!
The slots that an expression names are all that it asks of the bindings. It is applicable where they
are bound, its result is the same where they have the same values, and a slot that it misses is one
of them.
-/

namespace Dispatch

/-- Where the error is that of a slot without a value, this is one of the slots, and it is unbound.
-/
def EvalError.MissesAmong (slots : List Nat) (bindings : Bindings) : EvalError → Prop
  | .unboundSlot slot => slot ∈ slots ∧ bindings.isBound slot = false
  | _ => True

/-- An error that is not about a slot misses none, so none but the given ones. -/
theorem EvalError.missesAmong_of_sparesSlots {slots : List Nat} {bindings : Bindings}
    {error : EvalError} (spares : error.SparesSlots)
    : error.MissesAmong slots bindings := by
  cases error with
  | unboundSlot slot => exact spares.elim
  | _ => trivial

namespace Expr

variable {schema : Schema} {store : Store} {slots : List Nat}

theorem missesAmong_of_ofValues {α : Type} {result : Except EvalError α}
    (fails : FailsOnly EvalError.OfValues result)
    : FailsOnly (EvalError.MissesAmong slots store.bindings) result :=
  fails.mono fun _ values =>
    EvalError.missesAmong_of_sparesSlots (EvalError.sparesSlots_of_ofValues values)

mutual

/-- An expression misses none but the slots that it mentions, by induction on the expression: a slot
is looked up where it is mentioned and nowhere else.
-/
theorem eval_missesAmong (expr : Expr) (mentioned : expr.mentions ⊆ slots)
    : FailsOnly (EvalError.MissesAmong slots store.bindings) (expr.eval schema store) := by
  cases expr with
  | int value => exact .ok _
  | bool value => exact .ok _
  | entityType entity name => exact .ok _
  | param slot name =>
      rw [eval]
      split
      · exact .ok _
      · rename_i missing
        exact .error ⟨mentioned List.mem_cons_self, by rw [Bindings.isBound, missing]; rfl⟩
  | tuple elements =>
      rw [eval]
      exact (evalAll_missesAmong elements mentioned).bind fun _ _ => .ok _
  | read place name index =>
      rw [eval]
      refine (eval_missesAmong index mentioned).bind fun value _ => ?_
      refine (missesAmong_of_ofValues value.asInt_fails).bind fun number _ => ?_
      exact (store.read_sparesSlots schema place name number).mono fun _ spares =>
        EvalError.missesAmong_of_sparesSlots spares
  | isLive entity name id =>
      rw [eval]
      refine (eval_missesAmong id mentioned).bind fun value _ => ?_
      exact (missesAmong_of_ofValues value.asInt_fails).bind fun _ _ => .ok _
  | not operand =>
      rw [eval]
      refine (eval_missesAmong operand mentioned).bind fun value _ => ?_
      exact (missesAmong_of_ofValues value.asBool_fails).bind fun _ _ => .ok _
  | neg operand =>
      rw [eval]
      refine (eval_missesAmong operand mentioned).bind fun value _ => ?_
      refine (missesAmong_of_ofValues value.asInt_fails).bind fun number _ => ?_
      exact missesAmong_of_ofValues (exact_fails _)
  | binary op left right =>
      have both := List.append_subset.mp mentioned
      have values (error : EvalError) (ofValues : error.OfValues)
          : error.MissesAmong slots store.bindings :=
        EvalError.missesAmong_of_sparesSlots (EvalError.sparesSlots_of_ofValues ofValues)
      exact eval_binary_fails values op (eval_missesAmong left both.1)
        (eval_missesAmong right both.2)

theorem evalAll_missesAmong (exprs : List Expr) (mentioned : mentionsAll exprs ⊆ slots)
    : FailsOnly (EvalError.MissesAmong slots store.bindings) (evalAll schema store exprs) := by
  cases exprs with
  | nil => exact .ok _
  | cons element rest =>
      have both := List.append_subset.mp mentioned
      rw [evalAll]
      refine (eval_missesAmong element both.1).bind fun value _ => ?_
      exact (evalAll_missesAmong rest both.2).bind fun _ _ => .ok _

end

/-- The slots of an expression decide in a state whether it can be evaluated, with which result, and
which slot can be missing.
-/
structure DependsOnSlots (schema : Schema) (state : State) (expr : Expr) : Prop where
  applicable_iff
    : ∀ bindings : Bindings, expr.isApplicable bindings.isBound = true
        ↔ ∀ slot ∈ expr.slots, bindings.isBound slot = true
  same_result
    : ∀ left right : Bindings, Bindings.AgreeOn expr.slots left right
        → expr.eval schema ⟨state, left⟩ = expr.eval schema ⟨state, right⟩
  none_missing
    : ∀ bindings : Bindings, (∀ slot ∈ expr.slots, bindings.isBound slot = true)
        → ∀ slot, expr.eval schema ⟨state, bindings⟩ ≠ .error (.unboundSlot slot)

/-- A slot that an expression misses is unbound and one of those that it names, so evaluation never
asks for a slot that no one could know of.
-/
theorem slot_of_unbound {state : State} {bindings : Bindings} {expr : Expr} {slot : Nat}
    (failed : expr.eval schema ⟨state, bindings⟩ = .error (.unboundSlot slot))
    : slot ∈ expr.slots ∧ bindings.isBound slot = false := by
  obtain ⟨mentioned, unbound⟩ := eval_missesAmong expr (List.Subset.refl _) _ failed
  exact ⟨mem_slots_iff.mpr mentioned, unbound⟩

/-- Evaluation depends on no slots but those that the expression names.

So a search over parameters may check a condition as soon as its slots are bound: the value is the
one that it will have when all of them are.
-/
theorem dependsOnSlots (schema : Schema) (state : State) (expr : Expr)
    : expr.DependsOnSlots schema state where
  applicable_iff bindings := by
    simp only [isApplicable_iff, mem_slots_iff]
  same_result left right agree :=
    eval_congr schema state expr fun slot mentioned => agree slot (mem_slots_iff.mpr mentioned)
  none_missing bindings bound slot failed := by
    obtain ⟨named, unbound⟩ := slot_of_unbound failed
    rw [bound slot named] at unbound
    cases unbound

end Expr

end Dispatch
