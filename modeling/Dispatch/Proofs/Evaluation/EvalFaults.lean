import Dispatch.Proofs.Scoping.ExpressionScopes
import Dispatch.Update.Run

/-!
Where the errors of a scoped expression come from. An operator on evaluated operands complains about
their values alone; any other error is that of a slot in scope without a value, or of reading a
place that the vocabulary declares.
-/

namespace Dispatch

-----------------------------------------------------------------------------------------
-- Operators
-----------------------------------------------------------------------------------------

/-- The error is a complaint about evaluated operands. -/
def EvalError.OfValues : EvalError → Prop
  | .typeMismatch _ _ | .elementOutOfBounds _ _ | .keyNotFound _ | .divisionByZero | .overflow =>
      True
  | _ => False

/-- Keeping a number within the bounds complains about its value alone. -/
theorem exact_fails (number : Int) : FailsOnly EvalError.OfValues (exact number) := by
  unfold exact
  split
  · exact .ok _
  · exact .error trivial

namespace Value

theorem asInt_fails (value : Value) : FailsOnly EvalError.OfValues value.asInt := by
  cases value with
  | int number => exact .ok number
  | _ => exact .error trivial

theorem asBool_fails (value : Value) : FailsOnly EvalError.OfValues value.asBool := by
  cases value with
  | bool truth => exact .ok truth
  | _ => exact .error trivial

theorem numbers_fails (elements : List Value)
    : FailsOnly EvalError.OfValues (numbers elements) := by
  induction elements with
  | nil => exact .ok []
  | cons element rest ih =>
      exact (asInt_fails element).bind fun number _ => ih.bind fun more _ => .ok _

/-- Reading an operand as the members of a set complains about its value alone, by cases on the
operand.
-/
theorem members_fails (set operand : Value)
    : FailsOnly EvalError.OfValues (members set operand) := by
  cases operand with
  | int number => exact .ok _
  | set elements => exact .ok _
  | seq elements => exact numbers_fails elements
  | bool truth => exact .error trivial
  | map pairs => exact .error trivial

theorem add_fails (left right : Value) : FailsOnly EvalError.OfValues (add left right) := by
  cases left with
  | int number =>
      cases right with
      | int other => exact exact_fails _
      | _ => exact .error trivial
  | set elements => exact (members_fails _ right).bind fun more _ => .ok _
  | _ => exact .error trivial

theorem sub_fails (left right : Value) : FailsOnly EvalError.OfValues (sub left right) := by
  cases left with
  | int number =>
      cases right with
      | int other => exact exact_fails _
      | _ => exact .error trivial
  | set elements => exact (members_fails _ right).bind fun fewer _ => .ok _
  | _ => exact .error trivial

theorem mul_fails (left right : Value) : FailsOnly EvalError.OfValues (mul left right) :=
  (asInt_fails left).bind fun _ _ => (asInt_fails right).bind fun _ _ => exact_fails _

theorem div_fails (left right : Value) : FailsOnly EvalError.OfValues (div left right) := by
  refine (asInt_fails right).bind fun divisor _ => ?_
  dsimp only
  split
  · exact .error trivial
  · exact (asInt_fails left).bind fun _ _ => exact_fails _

theorem comparison_fails (holds : Int → Int → Bool) (left right : Value)
    : FailsOnly EvalError.OfValues (comparison holds left right) :=
  (asInt_fails left).bind fun _ _ => (asInt_fails right).bind fun _ _ => .ok _

theorem contains_fails (element collection : Value)
    : FailsOnly EvalError.OfValues (contains element collection) := by
  cases collection with
  | set elements => exact (asInt_fails element).bind fun _ _ => .ok _
  | map pairs => exact (asInt_fails element).bind fun _ _ => .ok _
  | seq elements => exact .ok _
  | int number => exact .error trivial
  | bool truth => exact .error trivial

/-- Indexing complains about the operands alone: the key is no number, or there is nothing at it, or
the collection is none.
-/
theorem index_fails (collection key : Value)
    : FailsOnly EvalError.OfValues (index collection key) := by
  refine (asInt_fails key).bind fun number _ => ?_
  cases collection with
  | map pairs =>
      dsimp only
      split
      · exact .ok _
      · exact .error trivial
  | set elements =>
      dsimp only
      split
      · exact .ok _
      · exact .error trivial
  | seq elements =>
      dsimp only
      split
      · exact .ok _
      · exact .error trivial
  | int number => exact .error trivial
  | bool truth => exact .error trivial

/-- An operator on evaluated operands complains about these alone, by cases on the operator. No name
is looked up any more once the operands have values.
-/
theorem operate_fails (op : BinaryOp) (left right : Value)
    : FailsOnly EvalError.OfValues (operate op left right) := by
  cases op with
  | or => exact (asBool_fails left).bind fun _ _ => (asBool_fails right).bind fun _ _ => .ok _
  | and => exact (asBool_fails left).bind fun _ _ => (asBool_fails right).bind fun _ _ => .ok _
  | equal => exact .ok _
  | notEqual => exact .ok _
  | less => exact comparison_fails _ left right
  | lessEqual => exact comparison_fails _ left right
  | greater => exact comparison_fails _ left right
  | greaterEqual => exact comparison_fails _ left right
  | contains => exact contains_fails left right
  | add => exact add_fails left right
  | sub => exact sub_fails left right
  | mul => exact mul_fails left right
  | div => exact div_fails left right
  | index => exact index_fails left right

end Value

-----------------------------------------------------------------------------------------
-- Slots
-----------------------------------------------------------------------------------------

/-- The error is not that of a slot without a value. -/
def EvalError.SparesSlots : EvalError → Prop
  | .unboundSlot _ => False
  | _ => True

theorem EvalError.sparesSlots_of_ofValues {error : EvalError} (values : error.OfValues)
    : error.SparesSlots := by
  cases error with
  | unboundSlot slot => exact values
  | _ => trivial

/-- Reading a place never fails on a slot: the index has been evaluated by then, and the place is in
the state.
-/
theorem Store.read_sparesSlots (schema : Schema) (store : Store) (place : Place) (name : String)
    (index : Int)
    : FailsOnly EvalError.SparesSlots (store.read schema place name index) := by
  cases place with
  | const slot | var slot | field collection slot constant =>
      unfold Store.read
      dsimp only
      split
      · exact .error trivial
      · split
        · exact .ok _
        · exact .error trivial

-----------------------------------------------------------------------------------------
-- Expressions
-----------------------------------------------------------------------------------------

namespace Expr

/-- Which errors a store may give to names that are resolved: those of operands are all permitted,
and so are those of a slot in scope without a value and of reading a declared place.
-/
structure Permits (schema : Schema) (names : Names) (store : Store) (fault : EvalError → Prop)
    : Prop where
  values : ∀ error, error.OfValues → fault error
  slots
    : ∀ name slot kind, names.scope.lookup? name = some (slot, kind)
        → store.bindings.get? slot = none
        → fault (.unboundSlot slot)
  reads
    : ∀ place name index, names.vocabulary.place? name = some place
        → FailsOnly fault (store.read schema place name index)

variable {schema : Schema} {names : Names} {store : Store} {fault : EvalError → Prop}

/-- What is permitted to fail in two ways at once is permitted where both ways are. -/
theorem Permits.and {other : EvalError → Prop} (left : Permits schema names store fault)
    (right : Permits schema names store other)
    : Permits schema names store (fun error => fault error ∧ other error) where
  values error ofValues := ⟨left.values error ofValues, right.values error ofValues⟩
  slots name slot kind found unbound :=
    ⟨left.slots name slot kind found unbound, right.slots name slot kind found unbound⟩
  reads place name index named :=
    (left.reads place name index named).and (right.reads place name index named)

/-- An operator fails as its operands do, or complains about their values. -/
theorem eval_binary_fails (values : ∀ error, error.OfValues → fault error) (op : BinaryOp)
    {left right : Expr} (first : FailsOnly fault (left.eval schema store))
    (second : FailsOnly fault (right.eval schema store))
    : FailsOnly fault ((Expr.binary op left right).eval schema store) := by
  have strict
      : FailsOnly fault (do
          let left ← left.eval schema store
          let right ← right.eval schema store
          Value.operate op left right) :=
    first.bind fun a _ => second.bind fun b _ => (Value.operate_fails op a b).mono values
  cases op with
  | and =>
      rw [eval]
      refine first.bind fun value _ => (value.asBool_fails.mono values).bind fun holds _ => ?_
      split
      · exact second.bind fun other _ => (other.asBool_fails.mono values).bind fun _ _ => .ok _
      · exact .ok _
  | or =>
      rw [eval]
      refine first.bind fun value _ => (value.asBool_fails.mono values).bind fun holds _ => ?_
      split
      · exact .ok _
      · exact second.bind fun other _ => (other.asBool_fails.mono values).bind fun _ _ => .ok _
  | _ =>
      simp only [eval]
      exact strict

mutual

/-- A scoped expression fails with permitted errors only, by induction on the expression.

A condition on errors has to permit those about values, those of slots in scope and those of
declared places; every claim about how expressions fail takes this one with a condition of its own.
-/
theorem eval_fails (permits : Permits schema names store fault) (expr : Expr)
    (resolved : expr.Scoped names)
    : FailsOnly fault (expr.eval schema store) := by
  have operands {α : Type} {result : Except EvalError α}
      (fails : FailsOnly EvalError.OfValues result)
      : FailsOnly fault result :=
    fails.mono permits.values
  cases expr with
  | int value => exact .ok _
  | bool value => exact .ok _
  | entityType entity name => exact .ok _
  | param slot name =>
      obtain ⟨kind, bound⟩ := resolved
      rw [eval]
      split
      · exact .ok _
      · rename_i missing
        exact .error (permits.slots name slot kind bound missing)
  | tuple elements =>
      rw [eval]
      exact (evalAll_fails permits elements resolved).bind fun _ _ => .ok _
  | read place name index =>
      obtain ⟨declared, inner⟩ := resolved
      rw [eval]
      refine (eval_fails permits index inner).bind fun value _ => ?_
      exact (operands value.asInt_fails).bind fun number _ =>
        permits.reads place name number declared
  | isLive entity name id =>
      rw [eval]
      refine (eval_fails permits id resolved.2).bind fun value _ => ?_
      exact (operands value.asInt_fails).bind fun _ _ => .ok _
  | not operand =>
      rw [eval]
      refine (eval_fails permits operand resolved).bind fun value _ => ?_
      exact (operands value.asBool_fails).bind fun _ _ => .ok _
  | neg operand =>
      rw [eval]
      refine (eval_fails permits operand resolved).bind fun value _ => ?_
      exact (operands value.asInt_fails).bind fun number _ => operands (exact_fails _)
  | binary op left right =>
      have first := eval_fails permits left resolved.1
      have second := eval_fails permits right resolved.2
      exact eval_binary_fails permits.values op first second

theorem evalAll_fails (permits : Permits schema names store fault) (exprs : List Expr)
    (resolved : AllScoped names exprs)
    : FailsOnly fault (evalAll schema store exprs) := by
  cases exprs with
  | nil => exact .ok _
  | cons element rest =>
      rw [evalAll]
      refine (eval_fails permits element resolved.1).bind fun value _ => ?_
      exact (evalAll_fails permits rest resolved.2).bind fun _ _ => .ok _

end

variable {expr : Expr}

/-- A scoped expression that should be a number fails with permitted errors only; that it is none is
an error about its value.
-/
theorem evalInt_fails (permits : Permits schema names store fault) (resolved : expr.Scoped names)
    : FailsOnly fault (expr.evalInt schema store) :=
  (eval_fails permits expr resolved).bind fun value _ => value.asInt_fails.mono permits.values

/-- A scoped condition fails with permitted errors only; that it is no truth value is an error about
its value.
-/
theorem evalBool_fails (permits : Permits schema names store fault) (resolved : expr.Scoped names)
    : FailsOnly fault (expr.evalBool schema store) :=
  (eval_fails permits expr resolved).bind fun value _ => value.asBool_fails.mono permits.values

/-- A scoped filter fails with permitted errors only, and a missing one not at all. -/
theorem passes_fails (permits : Permits schema names store fault) {filter : Option Expr}
    (resolved : ∀ condition, filter = some condition → condition.Scoped names)
    : FailsOnly fault (Expr.passes schema store filter) := by
  cases filter with
  | none => exact .ok _
  | some condition => exact evalBool_fails permits (resolved condition rfl)

end Expr

/-- A new item of scoped fields fails with permitted errors only, where it is permitted that the
collection is unknown and that a field has another kind.
-/
theorem Store.newItem_fails {schema : Schema} {names : Names} {store : Store}
    {fault : EvalError → Prop} {collection : Nat} {fields : List Expr}
    (permits : Expr.Permits schema names store fault) (resolved : Expr.AllScoped names fields)
    (unknown
      : schema.collections[collection]? = none
          → fault (.unknownItem (schema.collectionName collection) (-1)))
    (mismatch : ∀ kind name, fault (.fieldMismatch kind name))
    : FailsOnly fault (store.newItem schema collection fields) := by
  unfold newItem
  split
  · rename_i layout _
    refine (Expr.evalAll_fails permits fields resolved).bind fun values _ => ?_
    split
    · exact .ok _
    · exact .error (mismatch _ _)
  · rename_i missing
    exact .error (unknown (Option.eq_none_iff_forall_ne_some.mpr missing))

end Dispatch
