import Dispatch.Literal

/-!
Problems: the initial values of a domain's variables and items, and the batches of items that
arrive later.
-/

namespace Dispatch

/-- A written value, with its index where the line gives one. -/
structure StartValue where
  index : Option Nat
  literal : Literal
  line : Nat

/-- The values of an entity type or a variable. -/
structure StartEntry where
  name : String
  values : List StartValue
  line : Nat

/-- The entries of the start, and of each later batch. -/
structure Problem where
  initial : List StartEntry
  iterations : List (List StartEntry)

end Dispatch
