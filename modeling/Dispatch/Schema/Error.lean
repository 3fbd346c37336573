import Dispatch.Kind
import Dispatch.Literal

/-!
Errors of laying out a problem against its domain. Each names an entry or a field and the line it
is reported at.
-/

namespace Dispatch

namespace SchemaError

/-- Why the values of a problem do not fit its domain. -/
inductive Cause where
  | unknownName
  | duplicateEntry
  | invalidCount
  | shapeMismatch (expected found : Nat)
  | indexOutOfRange (index length : Nat)
  | kindMismatch (expected : Kind) (found : Literal)
  | fieldCount (expected found : Nat)
  | fieldInitialized
  | scalarInBatch

end SchemaError

/-- A problem that does not fit its domain. -/
structure SchemaError where
  name : String
  line : Nat
  cause : SchemaError.Cause

namespace SchemaError

def message (error : SchemaError) : String :=
  let name := "'" ++ error.name ++ "'"
  "line " ++ toString error.line ++ ": " ++
    match error.cause with
    | .unknownName => "unknown entity or variable " ++ name
    | .duplicateEntry => name ++ " is initialized twice"
    | .invalidCount => name ++ " needs a single non-negative count"
    | .shapeMismatch expected found =>
        name ++ " has " ++ toString expected ++ " instances but " ++ toString found
          ++ " values were given"
    | .indexOutOfRange index length =>
        "index " ++ toString index ++ " is out of range for " ++ name ++ " with "
          ++ toString length ++ " instances"
    | .kindMismatch expected found =>
        name ++ " expects a " ++ expected.title ++ " value, found " ++ found.text
    | .fieldCount expected found =>
        name ++ " items have " ++ toString expected ++ " fields, found " ++ toString found
    | .fieldInitialized => "item field " ++ name ++ " is initialized through its item rows"
    | .scalarInBatch => "iteration batches may only add items, found " ++ name

end SchemaError

end Dispatch
