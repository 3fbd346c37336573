import Dispatch.Ascending
import Dispatch.Kind
import Dispatch.Literal

/-!
Values of variables, fields and expressions. Sets and maps are ascending, so equal values are equal
data. A sequence is the value of a literal list and is never stored.
-/

namespace Dispatch

inductive ValueType where
  | int
  | bool
  | set
  | map
  | seq
deriving DecidableEq

namespace ValueType

/-- The name of the type in messages. -/
def name : ValueType → String
  | .int => "Int"
  | .bool => "Bool"
  | .set => "Set"
  | .map => "Map"
  | .seq => "Seq"

/-- The place of the type in the order of values. -/
def rank : ValueType → Nat
  | .int => 0
  | .bool => 1
  | .set => 2
  | .map => 3
  | .seq => 4

end ValueType

/-- The type of the values that are stored under a kind. -/
def Kind.valueType : Kind → ValueType
  | .int => .int
  | .bool => .bool
  | .set => .set
  | .map => .map

inductive Value where
  | int (value : Int)
  | bool (value : Bool)
  | set (elements : List Int)
  | map (pairs : List (Int × Int))
  | seq (elements : List Value)

namespace Value

mutual

def beq : Value → Value → Bool
  | .int a, .int b => a = b
  | .bool a, .bool b => a = b
  | .set a, .set b => a = b
  | .map a, .map b => a = b
  | .seq a, .seq b => beqAll a b
  | _, _ => false

/-- Whether two lists of values are equal. -/
def beqAll : List Value → List Value → Bool
  | [], [] => true
  | a :: as, b :: bs => beq a b && beqAll as bs
  | _, _ => false

end

mutual

/-- Values that compare equal are the same. -/
theorem eq_of_beq : ∀ a b : Value, beq a b = true → a = b
  | .int _, .int _, h => by simpa [beq] using h
  | .bool _, .bool _, h => by simpa [beq] using h
  | .set _, .set _, h => by simpa [beq] using h
  | .map _, .map _, h => by simpa [beq] using h
  | .seq a, .seq b, h => by rw [eq_of_beqAll a b (by simpa [beq] using h)]
  | .int _, .bool _, h | .int _, .set _, h | .int _, .map _, h | .int _, .seq _, h
  | .bool _, .int _, h | .bool _, .set _, h | .bool _, .map _, h | .bool _, .seq _, h
  | .set _, .int _, h | .set _, .bool _, h | .set _, .map _, h | .set _, .seq _, h
  | .map _, .int _, h | .map _, .bool _, h | .map _, .set _, h | .map _, .seq _, h
  | .seq _, .int _, h | .seq _, .bool _, h | .seq _, .set _, h | .seq _, .map _, h => by
      simp [beq] at h

/-- Lists of values that compare equal are the same. -/
theorem eq_of_beqAll : ∀ as bs : List Value, beqAll as bs = true → as = bs
  | [], [], _ => rfl
  | a :: as, b :: bs, h => by
      simp only [beqAll, Bool.and_eq_true] at h
      rw [eq_of_beq a b h.1, eq_of_beqAll as bs h.2]
  | [], _ :: _, h | _ :: _, [], h => by simp [beqAll] at h

end

mutual

/-- A value compares equal to itself. -/
theorem beq_self : ∀ a : Value, beq a a = true
  | .int _ | .bool _ | .set _ | .map _ => by simp [beq]
  | .seq a => by simp [beq, beqAll_self a]

/-- A list of values compares equal to itself. -/
theorem beqAll_self : ∀ as : List Value, beqAll as as = true
  | [] => rfl
  | a :: as => by simp [beqAll, beq_self a, beqAll_self as]

end

instance : DecidableEq Value := fun a b =>
  if h : beq a b = true then isTrue (eq_of_beq a b h)
  else isFalse fun same => h (same ▸ beq_self a)

/-- The initial value of a variable without given values. -/
def initial : Kind → Value
  | .int => .int 0
  | .bool => .bool false
  | .set => .set []
  | .map => .map []

/-- The value of a kind that a literal denotes; of a key given twice the last value counts. -/
def ofLiteral? : Literal → Kind → Option Value
  | .int value, .int => some (.int value)
  | .bool value, .bool => some (.bool value)
  | .set elements, .set => some (.set (Ascending.ofList elements))
  | .map pairs, .map => some (.map (Ascending.ofPairs pairs))
  | _, _ => none

def type : Value → ValueType
  | .int _ => .int
  | .bool _ => .bool
  | .set _ => .set
  | .map _ => .map
  | .seq _ => .seq

/-- Whether the value can be stored in a variable of the kind. -/
def hasKind (value : Value) (kind : Kind) : Bool := value.type = kind.valueType

mutual

/-- The value as text: sets in braces, maps in brackets, sequences in parentheses. -/
def text : Value → String
  | .int value => toString value
  | .bool value => if value then "true" else "false"
  | .set elements => "\x7b" ++ joined " " (elements.map toString) ++ "\x7d"
  | .map pairs =>
      "[" ++ joined " " (pairs.map fun (key, value) =>
        toString key ++ ":" ++ toString value) ++ "]"
  | .seq elements => "(" ++ joined ", " (texts elements) ++ ")"

def texts : List Value → List String
  | [] => []
  | element :: rest => element.text :: texts rest

end

def compareLists {α : Type} (compare : α → α → Ordering) : List α → List α → Ordering
  | [], [] => .eq
  | [], _ :: _ => .lt
  | _ :: _, [] => .gt
  | a :: as, b :: bs => (compare a b).then (compareLists compare as bs)

mutual

/-- Compares values by type, and values of one type by content. -/
def order : Value → Value → Ordering
  | .int a, .int b => compare a b
  | .bool a, .bool b => compare a.toNat b.toNat
  | .set a, .set b => compareLists compare a b
  | .map a, .map b =>
      compareLists (fun a b => (compare a.1 b.1).then (compare a.2 b.2)) a b
  | .seq a, .seq b => orderAll a b
  | a, b => compare a.type.rank b.type.rank

/-- Compares lists of values by their first difference. -/
def orderAll : List Value → List Value → Ordering
  | [], [] => .eq
  | [], _ :: _ => .lt
  | _ :: _, [] => .gt
  | a :: as, b :: bs => (order a b).then (orderAll as bs)

end

end Value

end Dispatch
