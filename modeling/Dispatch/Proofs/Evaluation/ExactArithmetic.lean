import Dispatch.Expr.Eval

/-!
Arithmetic is exact or an error. A calculation has the value that it has over the unbounded integers
as long as all its parts are numbers of the language; otherwise the first part in the order of
evaluation that is none, or that divides by zero, tells the error.
-/

namespace Dispatch

-----------------------------------------------------------------------------------------
-- Calculations
-----------------------------------------------------------------------------------------

/-- The operators that make a number of two numbers. -/
inductive ArithmeticOp where
  | add
  | sub
  | mul
  | div
deriving DecidableEq

namespace ArithmeticOp

def binaryOp : ArithmeticOp → BinaryOp
  | .add => .add
  | .sub => .sub
  | .mul => .mul
  | .div => .div

/-- The result over the unbounded integers. A quotient is rounded toward zero, and means nothing
where the divisor is zero.
-/
def result : ArithmeticOp → Int → Int → Int
  | .add, left, right => left + right
  | .sub, left, right => left - right
  | .mul, left, right => left * right
  | .div, left, right => left.tdiv right

end ArithmeticOp

/-- An expression of arithmetic, each leaf of which is an expression with a number as its value. -/
inductive Calculation where
  | leaf (source : Expr) (number : Int)
  | neg (operand : Calculation)
  | binary (op : ArithmeticOp) (left right : Calculation)

namespace Calculation

def expr : Calculation → Expr
  | .leaf source _ => source
  | .neg operand => .neg operand.expr
  | .binary op left right => .binary op.binaryOp left.expr right.expr

/-- The value over the unbounded integers. -/
def value : Calculation → Int
  | .leaf _ number => number
  | .neg operand => -operand.value
  | .binary op left right => op.result left.value right.value

/-- All calculations within a calculation in the order of evaluation: operands from left to right,
and then what they are operands of.
-/
def parts : Calculation → List Calculation
  | .leaf source number => [.leaf source number]
  | .neg operand => operand.parts ++ [.neg operand]
  | .binary op left right => left.parts ++ right.parts ++ [.binary op left right]

/-- The calculation is a quotient whose divisor is zero. -/
def DividesByZero : Calculation → Prop
  | .binary .div _ divisor => divisor.value = 0
  | _ => False

instance : DecidablePred DividesByZero
  | .binary .div _ divisor => inferInstanceAs (Decidable (divisor.value = 0))
  | .binary .add _ _ | .binary .sub _ _ | .binary .mul _ _ | .neg _ | .leaf _ _ =>
      inferInstanceAs (Decidable False)

/-- The last step of the calculation succeeds: it does not divide by zero, and its exact result is a
number of the language.
-/
def Succeeds (calculation : Calculation) : Prop :=
  ¬ calculation.DividesByZero ∧ inBounds calculation.value = true

/-- Every leaf has its number as its value in the store, a number of the language. -/
def LeavesIn (schema : Schema) (store : Store) (calculation : Calculation) : Prop :=
  ∀ source number, leaf source number ∈ calculation.parts
    → source.eval schema store = .ok (.int number) ∧ inBounds number = true

/-- The calculation is exact in the store, or the first part whose last step does not succeed tells
the error.
-/
structure ExactIn (schema : Schema) (store : Store) (calculation : Calculation) : Prop where
  value_iff
    : ∀ number, calculation.expr.eval schema store = .ok (.int number)
        ↔ (∀ part ∈ calculation.parts, part.Succeeds) ∧ number = calculation.value
  first_fault
    : (∃ part ∈ calculation.parts, ¬ part.Succeeds)
        → ∃ before part after, calculation.parts = before ++ part :: after
          ∧ (∀ earlier ∈ before, earlier.Succeeds)
          ∧ (part.DividesByZero
              ∧ calculation.expr.eval schema store = .error .divisionByZero
            ∨ ¬ part.DividesByZero ∧ inBounds part.value = false
              ∧ calculation.expr.eval schema store = .error .overflow)

-----------------------------------------------------------------------------------------
-- The first fault
-----------------------------------------------------------------------------------------

/-- The error of the last step of the calculation. -/
def fault? (calculation : Calculation) : Option EvalError :=
  if calculation.DividesByZero then some .divisionByZero
  else if inBounds calculation.value then none
  else some .overflow

/-- The result of a calculation whose first fault is given, if it has one. -/
def outcome (value : Int) : Option EvalError → Except EvalError Value
  | some error => .error error
  | none => .ok (.int value)

/-- A calculation succeeds in its last step exactly where that step has no fault. -/
theorem succeeds_iff {calculation : Calculation}
    : calculation.Succeeds ↔ calculation.fault? = none := by
  unfold Succeeds fault?
  split <;> simp [*]

/-- The result of a step that divides by nothing or not by zero is its exact value, or the fault
that this is no number of the language.
-/
theorem exact_eq_outcome (calculation : Calculation) (divides : ¬ calculation.DividesByZero)
    : exact calculation.value = outcome calculation.value calculation.fault? := by
  unfold exact fault?
  rw [if_neg divides]
  split <;> rfl

/-- An operator on two numbers fails as the calculation does in its last step, by cases on the
operator; a division looks at its divisor before it looks at the bounds.
-/
theorem operate_eq_outcome (op : ArithmeticOp) (left right : Calculation)
    : Value.operate op.binaryOp (.int left.value) (.int right.value)
      = outcome (binary op left right).value (binary op left right).fault? := by
  cases op with
  | add => exact exact_eq_outcome (binary .add left right) id
  | sub => exact exact_eq_outcome (binary .sub left right) id
  | mul => exact exact_eq_outcome (binary .mul left right) id
  | div =>
      by_cases zero : right.value = 0
      · have divides : (binary .div left right).DividesByZero := zero
        simp only [fault?, if_pos divides, outcome]
        simp [ArithmeticOp.binaryOp, Value.operate, Value.div, Value.asInt, zero, bind, Except.bind,
          throw, throwThe, MonadExceptOf.throw]
      · rw [← exact_eq_outcome (binary .div left right) zero]
        simp [ArithmeticOp.binaryOp, Value.operate, Value.div, Value.asInt, zero, bind, Except.bind,
          value, ArithmeticOp.result]

/-- A calculation is evaluated to its value, or to the error of its first part that has one, by
induction on the calculation.

Parts are met in the order of evaluation, left operand before right one and both before their
operator, so the first part with a fault is the one whose error is seen.
-/
theorem eval_eq_outcome {schema : Schema} {store : Store} {calculation : Calculation}
    (leaves : calculation.LeavesIn schema store)
    : calculation.expr.eval schema store
      = outcome calculation.value (calculation.parts.findSome? fault?) := by
  induction calculation with
  | leaf source number =>
      obtain ⟨evaluated, bounded⟩ := leaves source number (by simp [parts])
      have sound : (leaf source number).fault? = none := by
        simp [fault?, DividesByZero, value, bounded]
      rw [expr, evaluated, parts, List.findSome?_singleton, sound]
      rfl
  | neg operand ih =>
      have evaluated := ih fun source number member =>
        leaves source number (List.mem_append_left _ member)
      rw [parts, List.findSome?_append, List.findSome?_singleton, expr, Expr.eval, evaluated]
      cases operand.parts.findSome? fault? with
      | some error => rfl
      | none => exact exact_eq_outcome (neg operand) id
  | binary op left right lefts rights =>
      have first := lefts fun source number member =>
        leaves source number (List.mem_append_left _ (List.mem_append_left _ member))
      have second := rights fun source number member =>
        leaves source number (List.mem_append_left _ (List.mem_append_right _ member))
      have evaluated
          : (binary op left right).expr.eval schema store
            = left.expr.eval schema store >>= fun first =>
                right.expr.eval schema store >>= fun second =>
                  Value.operate op.binaryOp first second := by
        cases op <;> simp only [expr, ArithmeticOp.binaryOp, Expr.eval]
      rw [parts, List.findSome?_append, List.findSome?_append, List.findSome?_singleton, evaluated,
        first, second]
      cases left.parts.findSome? fault? with
      | some error => rfl
      | none =>
          cases right.parts.findSome? fault? with
          | some error => rfl
          | none => exact operate_eq_outcome op left right

-----------------------------------------------------------------------------------------
-- Exactness
-----------------------------------------------------------------------------------------

/-- Integer arithmetic is exact or an error, and never wrapped.

Whatever the depth of a calculation, its value is that of unbounded integers if every part of it
stays within the bounds and divides by no zero; otherwise the error is that of the first part that
does not.
-/
theorem exactIn_of_leavesIn {schema : Schema} {store : Store} {calculation : Calculation}
    (leaves : calculation.LeavesIn schema store)
    : calculation.ExactIn schema store := by
  have evaluated := eval_eq_outcome leaves
  constructor
  · intro number
    have sound : (∀ part ∈ calculation.parts, part.Succeeds)
        ↔ calculation.parts.findSome? fault? = none := by
      simp only [succeeds_iff, List.findSome?_eq_none_iff]
    rw [evaluated, sound]
    cases calculation.parts.findSome? fault? with
    | some error => simp [outcome]
    | none => simp [outcome, eq_comm]
  · rintro ⟨failing, member, fails⟩
    cases found : calculation.parts.findSome? fault? with
    | none =>
        have sound := List.findSome?_eq_none_iff.mp found failing member
        exact absurd (succeeds_iff.mpr sound) fails
    | some error =>
        obtain ⟨before, part, after, split, fault, sound⟩ := List.findSome?_eq_some_iff.mp found
        refine ⟨before, part, after, split,
          fun earlier inside => succeeds_iff.mpr (sound earlier inside), ?_⟩
        rw [evaluated, found]
        unfold fault? at fault
        split at fault
        · rename_i divides
          obtain rfl := Option.some.inj fault
          exact .inl ⟨divides, rfl⟩
        · rename_i divides
          split at fault
          · cases fault
          · rename_i outside
            obtain rfl := Option.some.inj fault
            exact .inr ⟨divides, by simpa using outside, rfl⟩

/-- The least number divided by a bound `-1`, before a division by zero: `low / unit + unit / 0`. -/
def atLimit : Calculation :=
  .binary .add (.binary .div (.leaf (.param 0 "low") leastNumber) (.leaf (.param 1 "unit") (-1)))
    (.binary .div (.leaf (.param 1 "unit") (-1)) (.leaf (.int 0) 0))

/-- The layout of a problem without entity types and variables. -/
def bareSchema : Schema := ⟨[], [], [], [], [], ⟨[], []⟩, []⟩

/-- The quotient on the left is no number of the language, and is met before the divisor zero. -/
theorem exactIn_at_limit
    : atLimit.LeavesIn bareSchema ⟨bareSchema.initial, .ofIds [leastNumber, -1]⟩
        ∧ atLimit.ExactIn bareSchema ⟨bareSchema.initial, .ofIds [leastNumber, -1]⟩
        ∧ atLimit.expr.eval bareSchema ⟨bareSchema.initial, .ofIds [leastNumber, -1]⟩
          = .error .overflow := by
  have leaves : atLimit.LeavesIn bareSchema ⟨bareSchema.initial, .ofIds [leastNumber, -1]⟩ := by
    intro source number member
    simp only [atLimit, parts, List.cons_append, List.nil_append, List.mem_cons, leaf.injEq,
      reduceCtorEq, List.not_mem_nil, or_false, false_or] at member
    rcases member with ⟨rfl, rfl⟩ | ⟨rfl, rfl⟩ | ⟨rfl, rfl⟩ | ⟨rfl, rfl⟩ <;>
      exact ⟨rfl, by decide⟩
  exact ⟨leaves, exactIn_of_leavesIn leaves, rfl⟩

end Calculation

end Dispatch
