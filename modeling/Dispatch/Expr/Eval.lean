import Dispatch.Bounds
import Dispatch.EvalError
import Dispatch.Store

/-!
The value of an expression in a store. Both operands are evaluated from left to right before an
operator looks at them, except that `and` and `or` leave out a right operand that cannot matter.
Arithmetic is exact or an overflow.
-/

namespace Dispatch

/-- A number of the language, or an overflow. -/
def exact (n : Int) : Except EvalError Value :=
  if inBounds n then .ok (.int n) else .error .overflow

/-- The element at an index of a list of values. -/
def elementAt? {α : Type} (values : List α) (index : Int) : Option α :=
  index.toNat?.bind fun position => values[position]?

/-- The value at an index of a variable. -/
def valueAt? (values : Array Value) (index : Int) : Option Value :=
  index.toNat?.bind fun position => values[position]?

namespace Value

/-- The numbers that are all the elements of a sequence. -/
def numbers : List Value → Except EvalError (List Int)
  | [] => .ok []
  | element :: rest => do
      let number ← element.asInt
      let more ← numbers rest
      return number :: more

/-- The numbers that `+` adds to a set and `-` removes from it. -/
def members (set operand : Value) : Except EvalError (List Int) :=
  match operand with
  | .int number => .ok [number]
  | .set elements => .ok elements
  | .seq elements => numbers elements
  | _ => .error (.typeMismatch .numberOrSet set.type)

def union (set more : List Int) : List Int :=
  more.foldl (fun set number => Ascending.insert number set) set

def difference (set fewer : List Int) : List Int :=
  fewer.foldl (fun set number => Ascending.erase number set) set

/-- The sum of numbers, or a set with more members. -/
def add (left right : Value) : Except EvalError Value :=
  match left with
  | .int a =>
      match right with
      | .int b => exact (a + b)
      | _ => .error (.typeMismatch .numberOrSet left.type)
  | .set elements => do
      let more ← members left right
      return .set (union elements more)
  | _ => .error (.typeMismatch .numberOrSet left.type)

/-- The difference of numbers, or a set with fewer members. -/
def sub (left right : Value) : Except EvalError Value :=
  match left with
  | .int a =>
      match right with
      | .int b => exact (a - b)
      | _ => .error (.typeMismatch .numberOrSet left.type)
  | .set elements => do
      let fewer ← members left right
      return .set (difference elements fewer)
  | _ => .error (.typeMismatch .numberOrSet left.type)

def mul (left right : Value) : Except EvalError Value := do
  let a ← left.asInt
  let b ← right.asInt
  exact (a * b)

/-- The quotient of numbers, rounded toward zero. The divisor is looked at first. -/
def div (left right : Value) : Except EvalError Value := do
  let b ← right.asInt
  if b = 0 then throw .divisionByZero
  let a ← left.asInt
  exact (a.tdiv b)

/-- Whether the first number stands in a relation to the second. -/
def comparison (holds : Int → Int → Bool) (left right : Value) : Except EvalError Value := do
  let a ← left.asInt
  let b ← right.asInt
  return .bool (holds a b)

/-- Whether a collection contains an element: a set a number, a map a key, a sequence a value. -/
def contains (element collection : Value) : Except EvalError Value :=
  match collection with
  | .set elements => do
      let number ← element.asInt
      return .bool (elements.contains number)
  | .map pairs => do
      let key ← element.asInt
      return .bool (Ascending.find? key pairs).isSome
  | .seq elements => .ok (.bool (elements.contains element))
  | other => .error (.typeMismatch (.single .set) other.type)

/-- The value of a key in a map, or the element at a position of a set or a sequence. -/
def index (collection key : Value) : Except EvalError Value := do
  let key ← key.asInt
  match collection with
  | .map pairs =>
      match Ascending.find? key pairs with
      | some value => return .int value
      | none => throw (.keyNotFound key)
  | .set elements =>
      match elementAt? elements key with
      | some number => return .int number
      | none => throw (.elementOutOfBounds key elements.length)
  | .seq elements =>
      match elementAt? elements key with
      | some value => return value
      | none => throw (.elementOutOfBounds key elements.length)
  | other => throw (.typeMismatch .indexable other.type)

/-- The value of an operator other than `and` and `or` on evaluated operands. -/
def operate : BinaryOp → Value → Value → Except EvalError Value
  | .equal, left, right => .ok (.bool (left = right))
  | .notEqual, left, right => .ok (.bool (left ≠ right))
  | .less, left, right => comparison (· < ·) left right
  | .lessEqual, left, right => comparison (· ≤ ·) left right
  | .greater, left, right => comparison (· > ·) left right
  | .greaterEqual, left, right => comparison (· ≥ ·) left right
  | .contains, left, right => contains left right
  | .add, left, right => add left right
  | .sub, left, right => sub left right
  | .mul, left, right => mul left right
  | .div, left, right => div left right
  | .index, left, right => index left right
  | .and, left, right => do return .bool ((← left.asBool) && (← right.asBool))
  | .or, left, right => do return .bool ((← left.asBool) || (← right.asBool))

end Value

/-- The value stored at an index of a variable, or in the field of the item with that id. -/
def Store.read (schema : Schema) (store : Store) (place : Place) (name : String) (index : Int)
    : Except EvalError Value :=
  let element (values? : Option (Array Value)) : Except EvalError Value :=
    match values? with
    | none => .error (.undefinedStorage name)
    | some values =>
        match valueAt? values index with
        | some value => .ok value
        | none => .error (.indexOutOfBounds name index values.size)
  match place with
  | .const slot => element (schema.constants[slot]?.map (·.values))
  | .var slot => element store.state.mutables[slot]?
  | .field collection slot constant =>
      match store.state.collections[collection]?.bind (·.get? index) with
      | none => .error (.unknownItem (schema.collectionName collection) index)
      | some item =>
          match item.field? constant slot with
          | some value => .ok value
          | none => .error (.undefinedStorage name)

namespace Expr

mutual

def eval (schema : Schema) (store : Store) : Expr → Except EvalError Value
  | .int value => .ok (.int value)
  | .bool value => .ok (.bool value)
  | .entityType entity _ => .ok (.int entity)
  | .param slot _ =>
      match store.bindings.get? slot with
      | some value => .ok value
      | none => .error (.unboundSlot slot)
  | .tuple elements => do
      let values ← evalAll schema store elements
      return .seq values
  | .read place name index => do
      let index ← (← index.eval schema store).asInt
      store.read schema place name index
  | .isLive entity _ id => do
      let id ← (← id.eval schema store).asInt
      return .bool (store.state.hasId schema entity id)
  | .not operand => do
      let value ← (← operand.eval schema store).asBool
      return .bool (!value)
  | .neg operand => do
      let value ← (← operand.eval schema store).asInt
      exact (-value)
  | .binary .and left right => do
      let first ← (← left.eval schema store).asBool
      if first then
        let second ← (← right.eval schema store).asBool
        return .bool second
      else return .bool false
  | .binary .or left right => do
      let first ← (← left.eval schema store).asBool
      if first then return .bool true
      else
        let second ← (← right.eval schema store).asBool
        return .bool second
  | .binary op left right => do
      let left ← left.eval schema store
      let right ← right.eval schema store
      Value.operate op left right

def evalAll (schema : Schema) (store : Store) : List Expr → Except EvalError (List Value)
  | [] => .ok []
  | element :: rest => do
      let value ← element.eval schema store
      let values ← evalAll schema store rest
      return value :: values

end

/-- The number that an expression must denote. -/
def evalInt (schema : Schema) (store : Store) (expr : Expr) : Except EvalError Int := do
  (← expr.eval schema store).asInt

/-- The truth value that an expression must denote. -/
def evalBool (schema : Schema) (store : Store) (expr : Expr) : Except EvalError Bool := do
  (← expr.eval schema store).asBool

end Expr

end Dispatch
