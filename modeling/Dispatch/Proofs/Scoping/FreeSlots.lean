import Dispatch.Proofs.Execution.RunDependence
import Dispatch.Proofs.Scoping.ActionScopes
import Dispatch.Proofs.Scoping.ScopeSlots

/-!
The slots that scoped expressions, effects and costs take over from before them lie in the scope in
force: a slot beyond it is one that the effect or the cost binds itself. So the parts of an action
depend on the slots of its parameters alone.
-/

namespace Dispatch

namespace Expr

mutual

/-- A scoped expression mentions slots of the scope, by induction on the expression: a parameter
stands at its slot, and there is no other mention.
-/
theorem mentions_lt_of_scoped {names : Names} (expr : Expr) (resolved : expr.Scoped names)
    : ∀ slot ∈ expr.mentions, slot < names.scope.size := by
  cases expr with
  | int value => simp [mentions]
  | bool value => simp [mentions]
  | entityType entity name => simp [mentions]
  | tuple elements => exact mentionsAll_lt_of_scoped elements resolved
  | param slot name =>
      obtain ⟨kind, found⟩ := resolved
      rw [mentions, List.forall_mem_singleton]
      exact Scope.lt_size_of_lookup? found
  | read place name index => exact mentions_lt_of_scoped index resolved.2
  | isLive entity name id => exact mentions_lt_of_scoped id resolved.2
  | not operand => exact mentions_lt_of_scoped operand resolved
  | neg operand => exact mentions_lt_of_scoped operand resolved
  | binary op left right =>
      rw [mentions, List.forall_mem_append]
      exact ⟨mentions_lt_of_scoped left resolved.1, mentions_lt_of_scoped right resolved.2⟩

theorem mentionsAll_lt_of_scoped {names : Names} (exprs : List Expr)
    (resolved : AllScoped names exprs)
    : ∀ slot ∈ mentionsAll exprs, slot < names.scope.size := by
  cases exprs with
  | nil => simp [mentionsAll]
  | cons element rest =>
      rw [mentionsAll, List.forall_mem_append]
      exact ⟨mentions_lt_of_scoped element resolved.1, mentionsAll_lt_of_scoped rest resolved.2⟩

end

end Expr

namespace Update

-----------------------------------------------------------------------------------------
-- Free slots of effects
-----------------------------------------------------------------------------------------

mutual

/-- A scoped effect takes over slots of the scope, by induction on the effect. In the body of a
binding or a loop there is one slot more, which is its own.
-/
theorem free_lt_of_scoped {names : Names} (update : Update) (resolved : update.Scoped names)
    : ∀ slot ∈ update.free, slot < names.scope.size := by
  have inner {name : String} {kind : SlotKind} {slots : List Nat} {own : Nat}
      (same : own = names.scope.size)
      (inside : ∀ slot ∈ slots, slot < (names.push name kind).scope.size)
      : ∀ slot ∈ slots.filter (· ≠ own), slot < names.scope.size := by
    intro slot member
    obtain ⟨member, other⟩ := List.mem_filter.mp member
    have below := inside slot member
    rw [Names.push, Scope.size_push] at below
    simp only [decide_eq_true_eq] at other
    omega
  cases update with
  | assign place name index value =>
      rw [free, List.forall_mem_append]
      exact ⟨Expr.mentions_lt_of_scoped index resolved.2.1,
        Expr.mentions_lt_of_scoped value resolved.2.2⟩
  | assignLocal slot name value => exact Expr.mentions_lt_of_scoped value resolved.2
  | insert entity collection fields => exact Expr.mentionsAll_lt_of_scoped fields resolved.2.2
  | remove entity collection id => exact Expr.mentions_lt_of_scoped id resolved.2
  | replace entity collection id fields =>
      rw [free, List.forall_mem_append]
      exact ⟨Expr.mentions_lt_of_scoped id resolved.2.1,
        Expr.mentionsAll_lt_of_scoped fields resolved.2.2.2⟩
  | bind slot name value body =>
      rw [free, List.forall_mem_append]
      exact ⟨Expr.mentions_lt_of_scoped value resolved.2.1,
        inner resolved.1 (freeAll_lt_of_scoped body resolved.2.2)⟩
  | branch condition thenBody elseBody =>
      rw [free, List.forall_mem_append, List.forall_mem_append]
      exact ⟨Expr.mentions_lt_of_scoped condition resolved.1,
        freeAll_lt_of_scoped thenBody resolved.2.1, freeAll_lt_of_scoped elseBody resolved.2.2⟩
  | forEach slot name entity filter body =>
      obtain ⟨same, _, filterScoped, bodyScoped⟩ := resolved
      refine inner same (List.forall_mem_append.mpr ⟨?_, freeAll_lt_of_scoped body bodyScoped⟩)
      cases filter with
      | none => simp [Expr.mentionsAll]
      | some condition =>
          exact Expr.mentionsAll_lt_of_scoped [condition] ⟨filterScoped condition rfl, trivial⟩
  | loop condition body =>
      rw [free, List.forall_mem_append]
      exact ⟨Expr.mentions_lt_of_scoped condition resolved.1,
        freeAll_lt_of_scoped body resolved.2⟩

theorem freeAll_lt_of_scoped {names : Names} (updates : List Update)
    (resolved : BodyScoped names updates)
    : ∀ slot ∈ freeAll updates, slot < names.scope.size := by
  cases updates with
  | nil => simp [freeAll]
  | cons update rest =>
      rw [freeAll, List.forall_mem_append]
      exact ⟨free_lt_of_scoped update resolved.1, freeAll_lt_of_scoped rest resolved.2⟩

end

-----------------------------------------------------------------------------------------
-- Slots that are left bound
-----------------------------------------------------------------------------------------

mutual

/-- A slot of the scope after an effect is in the scope before it, or the effect leaves it bound; by
induction on the effect. Only a binding leaves one, and that goes for its body too.
-/
theorem binds_of_scopeAfter {names : Names} {slot : Nat} (update : Update)
    (resolved : update.Scoped names) (inside : slot < (update.scopeAfter names.scope).size)
    : slot < names.scope.size ∨ slot ∈ update.binds := by
  cases update with
  | bind own name value body =>
      obtain ⟨rfl, _, bodyScoped⟩ := resolved
      rw [binds, List.mem_cons]
      rcases bindsAll_of_bodyScope body bodyScoped inside with below | bound
      · rw [Names.push, Scope.size_push] at below
        omega
      · exact Or.inr (Or.inr bound)
  | _ => exact Or.inl inside

/-- A slot of the scope after a body is in the scope before it, or the body leaves it bound. -/
theorem bindsAll_of_bodyScope {names : Names} {slot : Nat} (updates : List Update)
    (resolved : BodyScoped names updates) (inside : slot < (bodyScope names.scope updates).size)
    : slot < names.scope.size ∨ slot ∈ bindsAll updates := by
  match updates with
  | [] => exact Or.inl inside
  | [update] =>
      simp only [bindsAll, List.append_nil]
      exact binds_of_scopeAfter update resolved.1 inside
  | first :: next :: rest =>
      rw [bindsAll, List.mem_append]
      rcases bindsAll_of_bodyScope (next :: rest) resolved.2 inside with below | bound
      · exact Or.inl below
      · exact Or.inr (Or.inr bound)

end

end Update

/-- A scoped cost takes over slots of the scope. -/
theorem Cost.free_lt_of_scoped {names : Names} {cost : Cost} (resolved : cost.Scoped names)
    : ∀ slot ∈ cost.free, slot < names.scope.size := by
  rw [Cost.free, List.forall_mem_append]
  refine ⟨Update.freeAll_lt_of_scoped cost.updates resolved.1, ?_⟩
  intro slot member
  obtain ⟨mentioned, unbound⟩ := List.mem_filter.mp member
  have inside := Expr.mentions_lt_of_scoped cost.value resolved.2 slot mentioned
  rcases Update.bindsAll_of_bodyScope cost.updates resolved.1 inside with below | bound
  · exact below
  · simp [bound] at unbound

-----------------------------------------------------------------------------------------
-- Parts of an action
-----------------------------------------------------------------------------------------

namespace ActionDecl

variable {vocabulary : Vocabulary} {decl : ActionDecl}

theorem names_size_le (decl : ActionDecl) (count : Nat)
    : (decl.names vocabulary count).scope.size ≤ decl.parameters.length := by
  rw [names, ParameterDecl.size_scope, List.length_take]
  exact Nat.min_le_right _ _

/-- The conditions of a well-scoped action mention its parameters alone, whichever number of them
scopes the condition.
-/
theorem WellScoped.mentions_lt (wellScoped : decl.WellScoped vocabulary) {condition : Expr}
    (member : condition ∈ decl.preconditions ++ decl.conflicts)
    : ∀ slot ∈ condition.mentions, slot < decl.parameters.length := by
  obtain ⟨count, _, resolved⟩ := wellScoped.inherited.conditions condition member
  intro slot mentioned
  exact Nat.lt_of_lt_of_le (Expr.mentions_lt_of_scoped condition resolved slot mentioned)
    (names_size_le decl count)

/-- The effects and the cost of a well-scoped action take over its parameters alone. All other slots
they read are bound by their own effects before.
-/
theorem WellScoped.free_lt (wellScoped : decl.WellScoped vocabulary)
    : ∀ slot ∈ Update.freeAll decl.effects ++ decl.cost.free, slot < decl.parameters.length := by
  intro slot member
  rcases List.mem_append.mp member with inEffects | inCost
  · obtain ⟨update, declared, free⟩ := Update.mem_freeAll_iff.mp inEffects
    obtain ⟨count, _, resolved⟩ := wellScoped.inherited.effects update declared
    exact Nat.lt_of_lt_of_le (Update.free_lt_of_scoped update resolved slot free)
      (names_size_le decl count)
  · obtain ⟨count, _, resolved⟩ := wellScoped.inherited.cost
    exact Nat.lt_of_lt_of_le (Cost.free_lt_of_scoped resolved slot inCost)
      (names_size_le decl count)

end ActionDecl

end Dispatch
