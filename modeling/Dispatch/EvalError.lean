import Dispatch.Value

/-!
Errors of evaluating expressions and running effects.
-/

namespace Dispatch

/-- The types of values that an operation accepts. -/
inductive TypeExpectation where
  | single (type : ValueType)
  | numberOrSet
  | indexable
deriving DecidableEq

def TypeExpectation.text : TypeExpectation → String
  | .single type => type.name
  | .numberOrSet => "Int or Set"
  | .indexable => "Map, Set or Seq"

/-- Why an expression has no value, or an effect cannot be carried out. -/
inductive EvalError where
  | typeMismatch (expected : TypeExpectation) (found : ValueType)
  /-- A field of an item was given a value of another kind. -/
  | fieldMismatch (expected : Kind) (field : String)
  | indexOutOfBounds (name : String) (index : Int) (length : Nat)
  | elementOutOfBounds (index : Int) (length : Nat)
  | unknownItem (collection : String) (id : Int)
  | keyNotFound (key : Int)
  | divisionByZero
  | overflow
  | unboundSlot (slot : Nat)
  | readOnly (name : String)
  | undefinedStorage (name : String)
deriving DecidableEq

namespace EvalError

def message : EvalError → String
  | .typeMismatch expected found =>
      "type mismatch: expected " ++ expected.text ++ ", got " ++ found.name
  | .fieldMismatch expected field =>
      "type mismatch: expected " ++ expected.valueType.name ++ ", got another kind for field '"
        ++ field ++ "'"
  | .indexOutOfBounds name index length =>
      "index " ++ toString index ++ " out of bounds for '" ++ name ++ "' with "
        ++ toString length ++ " values"
  | .elementOutOfBounds index length =>
      "element " ++ toString index ++ " out of bounds for a collection of " ++ toString length
  | .unknownItem collection id =>
      "no live '" ++ collection ++ "' item with id " ++ toString id
  | .keyNotFound key => "key not found: " ++ toString key
  | .divisionByZero => "division by zero"
  | .overflow => "integer overflow"
  | .unboundSlot slot => "parameter slot " ++ toString slot ++ " is not bound"
  | .readOnly name => "'" ++ name ++ "' is constant"
  | .undefinedStorage name => "undefined storage for '" ++ name ++ "'"

end EvalError

namespace Value

/-- The number that a value must be. -/
def asInt : Value → Except EvalError Int
  | .int value => .ok value
  | other => .error (.typeMismatch (.single .int) other.type)

/-- The truth value that a value must be. -/
def asBool : Value → Except EvalError Bool
  | .bool value => .ok value
  | other => .error (.typeMismatch (.single .bool) other.type)

end Value

end Dispatch
