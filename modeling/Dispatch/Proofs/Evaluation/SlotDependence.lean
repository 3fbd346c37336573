import Dispatch.Action

/-!
The values of slots, and the slots that an expression mentions: applicability asks for exactly
these.
-/

namespace Dispatch

-----------------------------------------------------------------------------------------
-- Values of slots
-----------------------------------------------------------------------------------------

theorem Bindings.get?_ofIds (ids : List Int) (slot : Nat)
    : (Bindings.ofIds ids).get? slot = ids[slot]?.map Value.int := by
  simp only [Bindings.get?, Bindings.ofIds, List.getElem?_map]
  cases ids[slot]? <;> rfl

/-- A slot that is bound to a value holds it, and other slots are as before; the list of slots grows
to the slot if it is too short, by slots that hold nothing.
-/
theorem Bindings.get?_bind (bindings : Bindings) (slot other : Nat) (value : Value)
    : (bindings.bind slot value).get? other
      = if other = slot then some value else bindings.get? other := by
  unfold Bindings.bind put get?
  rw [List.getElem?_set]
  by_cases same : slot = other
  · subst same
    have inside : slot < (bindings.slots
        ++ List.replicate (slot + 1 - bindings.slots.length) none).length := by
      simp only [List.length_append, List.length_replicate]
      omega
    rw [if_pos rfl, if_pos inside, if_pos rfl]
    rfl
  · rw [if_neg same, if_neg (Ne.symm same), List.getElem?_append]
    split
    · rfl
    · rename_i outside
      rw [List.getElem?_eq_none (Nat.le_of_not_lt outside), List.getElem?_replicate]
      split <;> rfl

/-- A slot that is not bound any more has no value, and other slots are as before. -/
theorem Bindings.get?_unbind (bindings : Bindings) (slot other : Nat)
    : (bindings.unbind slot).get? other
      = if other = slot then none else bindings.get? other := by
  unfold unbind get?
  rw [List.getElem?_set]
  by_cases same : slot = other
  · subst same
    rw [if_pos rfl, if_pos rfl]
    split <;> rfl
  · rw [if_neg same, if_neg (Ne.symm same)]

/-- The two bindings give every slot of a list the same value, or leave both unbound. -/
def Bindings.AgreeOn (slots : List Nat) (left right : Bindings) : Prop :=
  ∀ slot ∈ slots, left.get? slot = right.get? slot

namespace Expr

-----------------------------------------------------------------------------------------
-- Applicability is about the mentioned slots
-----------------------------------------------------------------------------------------

mutual

/-- An expression is applicable exactly when every slot that it mentions is bound, by induction on
the expression; an operator is applicable when both operands are, even where it would not look at
the second.
-/
theorem isApplicable_iff (isBound : Nat → Bool) (expr : Expr)
    : expr.isApplicable isBound = true ↔ ∀ slot ∈ expr.mentions, isBound slot = true := by
  cases expr with
  | int value => simp [isApplicable, mentions]
  | bool value => simp [isApplicable, mentions]
  | entityType entity name => simp [isApplicable, mentions]
  | param slot name => simp [isApplicable, mentions]
  | tuple elements => simpa only [isApplicable, mentions] using allApplicable_iff isBound elements
  | read place name index =>
      simpa only [isApplicable, mentions] using isApplicable_iff isBound index
  | isLive entity name id => simpa only [isApplicable, mentions] using isApplicable_iff isBound id
  | not operand => simpa only [isApplicable, mentions] using isApplicable_iff isBound operand
  | neg operand => simpa only [isApplicable, mentions] using isApplicable_iff isBound operand
  | binary op left right =>
      simp only [isApplicable, mentions, Bool.and_eq_true, List.mem_append, or_imp, forall_and]
      rw [isApplicable_iff isBound left, isApplicable_iff isBound right]

theorem allApplicable_iff (isBound : Nat → Bool) (exprs : List Expr)
    : allApplicable isBound exprs = true
      ↔ ∀ slot ∈ mentionsAll exprs, isBound slot = true := by
  cases exprs with
  | nil => simp [allApplicable, mentionsAll]
  | cons element rest =>
      simp only [allApplicable, mentionsAll, Bool.and_eq_true, List.mem_append, or_imp, forall_and]
      rw [isApplicable_iff isBound element, allApplicable_iff isBound rest]

end

/-- The slots of an expression are those that it mentions, in ascending order and each of them once.
-/
theorem mem_slots_iff {expr : Expr} {slot : Nat} : slot ∈ expr.slots ↔ slot ∈ expr.mentions :=
  Ascending.mem_ofList

end Expr

end Dispatch
