import Dispatch.Ascending
import Dispatch.Vocabulary

/-!
Expressions with resolved names: a parameter carries its slot, a variable its place, an entity type
its index. The slots that an expression mentions decide when it can be evaluated.
-/

namespace Dispatch

inductive BinaryOp where
  | or
  | and
  | equal
  | notEqual
  | less
  | lessEqual
  | greater
  | greaterEqual
  | contains
  | add
  | sub
  | mul
  | div
  | index
deriving DecidableEq

namespace BinaryOp

/-- How tightly the operator binds; a greater level binds tighter. -/
def level : BinaryOp → Nat
  | .or => 1
  | .and => 2
  | .equal | .notEqual | .less | .lessEqual | .greater | .greaterEqual | .contains => 4
  | .add | .sub => 5
  | .mul | .div => 6
  | .index => 8

def text : BinaryOp → String
  | .or => "or"
  | .and => "and"
  | .equal => "="
  | .notEqual => "!="
  | .less => "<"
  | .lessEqual => "<="
  | .greater => ">"
  | .greaterEqual => ">="
  | .contains => "?"
  | .add => "+"
  | .sub => "-"
  | .mul => "*"
  | .div => "/"
  | .index => "@"

end BinaryOp

/-- The level of comparisons, at which `not` takes its operand. -/
def comparisonLevel : Nat := 4

inductive Expr where
  | int (value : Int)
  | bool (value : Bool)
  /-- A literal list `(a, b)` of at least two elements. -/
  | tuple (elements : List Expr)
  /-- A parameter, an iterator or a value named on the way. -/
  | param (slot : Nat) (name : String)
  /-- The value of a variable or field at an index. -/
  | read (place : Place) (name : String) (index : Expr)
  /-- Whether an id of the entity type is in use. -/
  | isLive (entity : Nat) (name : String) (id : Expr)
  /-- The index of an entity type as a number. -/
  | entityType (entity : Nat) (name : String)
  | not (operand : Expr)
  | neg (operand : Expr)
  | binary (op : BinaryOp) (left right : Expr)

namespace Expr

mutual

/-- The slots that the expression mentions, in reading order. -/
def mentions : Expr → List Nat
  | .int _ | .bool _ | .entityType _ _ => []
  | .tuple elements => mentionsAll elements
  | .param slot _ => [slot]
  | .read _ _ index => index.mentions
  | .isLive _ _ id => id.mentions
  | .not operand | .neg operand => operand.mentions
  | .binary _ left right => left.mentions ++ right.mentions

/-- The slots that any of the expressions mentions. -/
def mentionsAll : List Expr → List Nat
  | [] => []
  | element :: rest => element.mentions ++ mentionsAll rest

end

/-- The slots that the expression mentions, ascending and without repetition. -/
def slots (expr : Expr) : List Nat := Ascending.ofList expr.mentions

mutual

/-- Whether every slot on which the value may depend is bound. -/
def isApplicable (isBound : Nat → Bool) : Expr → Bool
  | .int _ | .bool _ | .entityType _ _ => true
  | .tuple elements => allApplicable isBound elements
  | .param slot _ => isBound slot
  | .read _ _ index => index.isApplicable isBound
  | .isLive _ _ id => id.isApplicable isBound
  | .not operand | .neg operand => operand.isApplicable isBound
  | .binary _ left right => left.isApplicable isBound && right.isApplicable isBound

def allApplicable (isBound : Nat → Bool) : List Expr → Bool
  | [] => true
  | element :: rest => element.isApplicable isBound && allApplicable isBound rest

end

/-- Whether the expression is the number zero, the index of a name written without one. -/
def isZero : Expr → Bool
  | .int value => value = 0
  | _ => false

end Expr

end Dispatch
