/-!
Kinds of values that variables and item fields are declared with.
-/

namespace Dispatch

/-- The declared kind of a variable or an item field. -/
inductive Kind where
  | int
  | bool
  | set
  | map
deriving DecidableEq

namespace Kind

def keyword : Kind → String
  | .int => "INT"
  | .bool => "BOOL"
  | .set => "MULTY"
  | .map => "MATCH"

/-- The name of the kind in messages. -/
def title : Kind → String
  | .int => "Int"
  | .bool => "Bool"
  | .set => "Multy"
  | .map => "Match"

def all : List Kind := [.int, .bool, .set, .map]

def ofKeyword? (word : List Char) : Option Kind := all.find? (·.keyword.toList = word)

end Kind

end Dispatch
