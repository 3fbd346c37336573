/-!
Finite sets and maps of integers as strictly ascending lists, so that equal contents are equal
lists and enumeration is in order.
-/

namespace Dispatch.Ascending

variable {α β : Type}

section Set

variable [LT α] [DecidableLT α]

/-- The ascending list with one more element. -/
def insert (a : α) : List α → List α
  | [] => [a]
  | b :: rest => if a < b then a :: b :: rest else if b < a then b :: insert a rest else b :: rest

def erase (a : α) : List α → List α
  | [] => []
  | b :: rest => if a < b then b :: rest else if b < a then b :: erase a rest else rest

/-- The ascending list of the given elements. -/
def ofList (elements : List α) : List α := elements.foldr insert []

variable [Std.Trichotomous (α := α) (· < ·)]

/-- An element of the ascending list is the one that was put into it or was in it, by induction on
the list.
-/
theorem mem_insert {a b : α} {list : List α} : b ∈ insert a list ↔ b = a ∨ b ∈ list := by
  induction list with
  | nil => rw [insert, List.mem_singleton, or_iff_left List.not_mem_nil]
  | cons first rest ih =>
      unfold insert
      split
      · exact List.mem_cons
      · rename_i notBefore
        split
        · rw [List.mem_cons, ih, List.mem_cons, or_left_comm]
        · rename_i notAfter
          obtain rfl : a = first := Std.Trichotomous.trichotomous a first notBefore notAfter
          rw [List.mem_cons, or_self_left]

/-- The ascending list has the given elements and no others, by induction on them. -/
theorem mem_ofList {b : α} {elements : List α} : b ∈ ofList elements ↔ b ∈ elements := by
  induction elements with
  | nil => rfl
  | cons a rest ih =>
      rw [List.mem_cons, ← ih]
      exact mem_insert

end Set

section Map

variable [LT α] [DecidableLT α]

/-- The ascending pairs with one more, unless its key has a value already. -/
def addPair (key : α) (value : β) : List (α × β) → List (α × β)
  | [] => [(key, value)]
  | (k, v) :: rest =>
      if key < k then (key, value) :: (k, v) :: rest
      else if k < key then (k, v) :: addPair key value rest
      else (k, v) :: rest

def find? (key : α) : List (α × β) → Option β
  | [] => none
  | (k, v) :: rest => if key < k then none else if k < key then find? key rest else some v

/-- The pairs ascending by key; of the pairs of a key the last counts. -/
def ofPairs (pairs : List (α × β)) : List (α × β) :=
  pairs.foldr (fun (key, value) map => addPair key value map) []

end Map

end Dispatch.Ascending
