import Dispatch.Expr

/-!
Expressions as text of the language, with the parentheses that reading the text back needs.
-/

namespace Dispatch

/-- The text in parentheses where they are needed. -/
def parenthesized (needed : Bool) (text : String) : String :=
  if needed then "(" ++ text ++ ")" else text

namespace Expr

/-- Whether the text of the expression needs no parentheses where a single operand is read. -/
def isAtomic : Expr → Bool
  | .int value => 0 ≤ value
  | .bool _ | .param _ _ | .tuple _ | .entityType _ _ => true
  | .read _ _ index => index.isZero
  | _ => false

/-- Whether the expression follows a name as its index without parentheses. -/
def isBareIndex : Expr → Bool
  | .int value => 0 ≤ value
  | .param _ _ => true
  | _ => false

/-- The level of the outermost operator; absent where the expression binds tighter than all
operators between two operands. A negation extends over a whole comparison.
-/
def outerLevel? : Expr → Option Nat
  | .binary .index _ _ => none
  | .binary op _ _ => some op.level
  | .not _ => some comparisonLevel
  | _ => none

/-- Whether the operand of `not` is put in parentheses. -/
def needsParensUnderNot : Expr → Bool
  | .binary op _ _ => op.level < comparisonLevel
  | _ => false

/-- Whether the operand of unary minus is put in parentheses. -/
def needsParensUnderNeg : Expr → Bool
  | .binary .index _ _ => false
  | .binary _ _ _ => true
  | _ => false

/-- Whether the left operand of `@` is put in parentheses. -/
def needsParensBeforeIndex : Expr → Bool
  | .binary .index _ _ => false
  | expr => !expr.isAtomic

mutual

def text : Expr → String
  | .int value => toString value
  | .bool value => if value then "true" else "false"
  | .tuple elements => "(" ++ commaText elements ++ ")"
  | .param _ name => name
  | .read _ name index =>
      if index.isZero then name
      else name ++ " " ++ parenthesized (!index.isBareIndex) index.text
  | .isLive _ name id => name ++ " exists " ++ parenthesized (!id.isAtomic) id.text
  | .entityType _ name => "entity " ++ name
  | .not operand => "not " ++ parenthesized operand.needsParensUnderNot operand.text
  | .neg operand => "-" ++ parenthesized operand.needsParensUnderNeg operand.text
  | .binary .index left right =>
      parenthesized left.needsParensBeforeIndex left.text ++ " @ "
        ++ parenthesized (!right.isAtomic) right.text
  | .binary op left right =>
      parenthesized (left.outerLevel?.any (· < op.level)) left.text ++ " " ++ op.text ++ " "
        ++ parenthesized (right.outerLevel?.any (· ≤ op.level)) right.text

/-- The texts of expressions, separated by commas. -/
def commaText : List Expr → String
  | [] => ""
  | [element] => element.text
  | element :: rest => element.text ++ ", " ++ commaText rest

end

end Expr

end Dispatch
