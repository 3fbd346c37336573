import Mathlib.Data.Finset.Sort
import Mathlib.Data.Int.Order.Basic
import Dispatch.Proofs.Evaluation.AscendingValues
import Dispatch.Proofs.Evaluation.ExactArithmetic

/-!
The operators on sets of numbers are those of finite sets. A set is kept as the ascending list of
its members, which adding and removing members preserves; so membership is that of a union or
difference, equal sets are equal values, and indexing goes through the members in order.
-/

namespace Dispatch

-----------------------------------------------------------------------------------------
-- Values of finite sets
-----------------------------------------------------------------------------------------

namespace Value

variable {elements : List Int}

/-- The value of a finite set: its members in ascending order. -/
def ofSet (members : Finset Int) : Value := .set members.sort

/-- An ascending list is the value of the set of its elements, since a finite set has one ascending
list of its elements.
-/
theorem set_eq_ofSet (ascending : elements.Pairwise (· < ·)) {members : Finset Int}
    (same : ∀ number, number ∈ elements ↔ number ∈ members)
    : Value.set elements = ofSet members := by
  obtain rfl : elements.toFinset = members := Finset.ext fun number => by
    rw [List.mem_toFinset, same]
  have sorted := (List.toFinset_sort (· ≤ ·) (ascending.imp Int.ne_of_lt)).mpr
    (ascending.imp Int.le_of_lt)
  rw [ofSet, sorted]

/-- The values that `+` and `-` take for a set of numbers: a single number, a set, or a list of
numbers in any order and with repetitions.
-/
inductive Denotes : Value → Finset Int → Prop where
  | number (number : Int) : Denotes (.int number) {number}
  | set (members : Finset Int) : Denotes (ofSet members) members
  | list (numbers : List Int) : Denotes (.seq (numbers.map .int)) numbers.toFinset

/-- A list of numbers as values is read back as that list, by induction on it. -/
theorem numbers_map (list : List Int) : numbers (list.map .int) = .ok list := by
  induction list with
  | nil => rfl
  | cons first rest ih =>
      rw [List.map_cons, numbers, ih]
      rfl

/-- The members of a value that denotes a set are those of the set, be it a number, a set or a
literal list with repeated elements.
-/
theorem Denotes.members_eq {operand : Value} {set : Finset Int} (denotes : operand.Denotes set)
    (other : Value)
    : ∃ list, members other operand = .ok list ∧ ∀ number, number ∈ list ↔ number ∈ set := by
  cases denotes with
  | number number => exact ⟨[number], rfl, by simp⟩
  | set => exact ⟨set.sort, rfl, by simp⟩
  | list numbers => exact ⟨numbers, numbers_map numbers, by simp⟩

variable {left right : Finset Int} {operand : Value}

/-- Adding to a set what denotes another gives their union, as both are ascending lists with the
same members.
-/
theorem add_ofSet (denotes : operand.Denotes right)
    : add (ofSet left) operand = .ok (ofSet (left ∪ right)) := by
  obtain ⟨more, found, same⟩ := denotes.members_eq (ofSet left)
  obtain ⟨ascending, members⟩ := union_ascending left.sortedLT_sort.pairwise more
  refine bind_eq_ok_iff.mpr
    ⟨more, found, congrArg Except.ok (set_eq_ofSet ascending fun number => ?_)⟩
  rw [members, same, Finset.mem_sort, Finset.mem_union]

/-- Removing from a set what denotes another gives their difference, as both are ascending lists
with the same members.
-/
theorem sub_ofSet (denotes : operand.Denotes right)
    : sub (ofSet left) operand = .ok (ofSet (left \ right)) := by
  obtain ⟨fewer, found, same⟩ := denotes.members_eq (ofSet left)
  obtain ⟨ascending, members⟩ := difference_ascending left.sortedLT_sort.pairwise fewer
  refine bind_eq_ok_iff.mpr
    ⟨fewer, found, congrArg Except.ok (set_eq_ofSet ascending fun number => ?_)⟩
  rw [members, same, Finset.mem_sort, Finset.mem_sdiff]

/-- A number is found in a set exactly where it is a member of it. -/
theorem contains_ofSet (number : Int) (set : Finset Int)
    : contains (.int number) (ofSet set) = .ok (.bool (decide (number ∈ set))) := by
  have member : set.sort.contains number = decide (number ∈ set) := by
    rw [List.contains_eq_mem, decide_eq_decide, Finset.mem_sort]
  rw [← member]
  rfl

/-- A set is indexed by the positions of its ascending list, and by nothing else. -/
theorem index_set (elements : List Int) (position : Int)
    : index (.set elements) (.int position)
      = (elementAt? elements position).elim
          (.error (.elementOutOfBounds position elements.length))
          fun member => .ok (.int member) := by
  simp only [index, asInt, bind, Except.bind]
  cases elementAt? elements position <;> rfl

end Value

/-- A list has no element at a position that is negative or behind its last one, and has one
everywhere else.
-/
theorem elementAt?_eq_none_iff {α : Type} {elements : List α} {position : Int}
    : elementAt? elements position = none ↔ position < 0 ∨ elements.length ≤ position := by
  unfold elementAt?
  cases position with
  | ofNat position =>
      have natural : (Int.ofNat position).toNat? = some position := rfl
      rw [natural, Option.bind_some, List.getElem?_eq_none_iff]
      simp only [Int.ofNat_eq_natCast]
      omega
  | negSucc position =>
      have negative : (Int.negSucc position).toNat? = none := rfl
      rw [negative, Option.bind_none]
      simp only [true_iff]
      omega

-----------------------------------------------------------------------------------------
-- Expressions
-----------------------------------------------------------------------------------------

namespace Expr

/-- Indexing the collection goes through the members of a finite set in ascending order, and is out
of bounds at every other number.
-/
def Enumerates (schema : Schema) (store : Store) (collection : Expr) (set : Finset Int) : Prop :=
  ∃ members : List Int, members.Pairwise (· < ·) ∧ (∀ member, member ∈ members ↔ member ∈ set)
    ∧ ∀ (key : Expr) (position : Int), key.eval schema store = .ok (.int position)
      → (∀ (place : Nat) (inside : place < members.length), position = place
          → (binary .index collection key).eval schema store = .ok (.int members[place]))
        ∧ ((binary .index collection key).eval schema store
            = .error (.elementOutOfBounds position members.length)
          ↔ position < 0 ∨ members.length ≤ position)

/-- The laws of finite sets for a set, what is added to it or removed from it, and a number. -/
structure SetLaws (schema : Schema) (store : Store) (a b x : Expr) (left right : Finset Int)
    (number : Int)
    : Prop where
  contains_sum
    : (binary .contains x (binary .add a b)).eval schema store
      = .ok (.bool (decide (number ∈ left ∨ number ∈ right)))
  contains_difference
    : (binary .contains x (binary .sub a b)).eval schema store
      = .ok (.bool (decide (number ∈ left ∧ number ∉ right)))
  restored
    : ∃ value, (binary .add (binary .sub a b) b).eval schema store = .ok value
        ∧ (binary .add a b).eval schema store = .ok value
  enumerated : Enumerates schema store (binary .add a b) (left ∪ right)

variable {schema : Schema} {store : Store}

/-- A set that an ascending store gives to an expression is the value of the set of its elements, as
the value of an expression is ascending there.
-/
theorem eval_eq_ofSet (ascends : store.Ascends schema) {expr : Expr} {elements : List Int}
    (evaluated : expr.eval schema store = .ok (.set elements))
    : expr.eval schema store = .ok (.ofSet elements.toFinset) := by
  have ascending : elements.Pairwise (· < ·) := eval_ascends ascends expr _ evaluated
  rw [evaluated, Value.set_eq_ofSet ascending fun number => List.mem_toFinset.symm]

/-- An operator that looks at both operands is applied to their values. -/
theorem eval_binary_of_ok {op : BinaryOp} (strict : op ≠ .and ∧ op ≠ .or) {a b : Expr}
    {left right : Value} (first : a.eval schema store = .ok left)
    (second : b.eval schema store = .ok right)
    : (binary op a b).eval schema store = Value.operate op left right := by
  rw [eval, first, second]
  · rfl
  · exact strict.1
  · exact strict.2

/-- Indexing a set by the numbers from zero on gives its members in ascending order, and nothing at
any other number.
-/
theorem enumerates_of_ofSet {collection : Expr} {set : Finset Int}
    (evaluated : collection.eval schema store = .ok (.ofSet set))
    : Enumerates schema store collection set := by
  refine ⟨set.sort, set.sortedLT_sort.pairwise, fun _ => Finset.mem_sort _, ?_⟩
  intro key position keyed
  have strict : BinaryOp.index ≠ .and ∧ BinaryOp.index ≠ .or := by decide
  have indexed := (eval_binary_of_ok strict evaluated keyed).trans
    (Value.index_set _ position)
  rw [indexed]
  constructor
  · intro place inside same
    have found : elementAt? set.sort position = some set.sort[place] := by
      rw [same]
      exact List.getElem?_eq_getElem inside
    rw [found]
    rfl
  · rw [← elementAt?_eq_none_iff]
    cases elementAt? set.sort position <;> simp

/-- The operators on sets obey the laws of finite sets.

The left operand is the value of a finite set, which every set in a simulation is; the right one may
be anything that denotes a set, a literal list included. For a literal list on the left the laws do
not hold, as it evaluates to a sequence.
-/
theorem setLaws_of_denotes {a b x : Expr} {left right : Finset Int} {number : Int}
    {operand : Value} (set : a.eval schema store = .ok (.ofSet left))
    (other : b.eval schema store = .ok operand) (denotes : operand.Denotes right)
    (element : x.eval schema store = .ok (.int number))
    : SetLaws schema store a b x left right number := by
  have sum : (binary .add a b).eval schema store = .ok (.ofSet (left ∪ right)) :=
    (eval_binary_of_ok (by decide) set other).trans (Value.add_ofSet denotes)
  have difference : (binary .sub a b).eval schema store = .ok (.ofSet (left \ right)) :=
    (eval_binary_of_ok (by decide) set other).trans (Value.sub_ofSet denotes)
  refine ⟨?_, ?_, ⟨.ofSet (left ∪ right), ?_, sum⟩, enumerates_of_ofSet sum⟩
  · simp only [← Finset.mem_union]
    exact (eval_binary_of_ok (by decide) element sum).trans (Value.contains_ofSet number _)
  · simp only [← Finset.mem_sdiff]
    exact (eval_binary_of_ok (by decide) element difference).trans (Value.contains_ofSet number _)
  · rw [eval_binary_of_ok (by decide) difference other, ← Finset.sdiff_union_self_eq_union]
    exact Value.add_ofSet denotes

/-- A store in which slot 0, the open berths, has the value 1 and 3, and slot 1, a berth, is 3. -/
def berths : Store := ⟨Calculation.bareSchema.initial, ⟨[some (.set [1, 3]), some (.int 3)]⟩⟩

/-- The berths 3 and 0 are opened, and closed, with a list that has 3 twice. -/
theorem setLaws_berths
    : SetLaws Calculation.bareSchema berths (.param 0 "open")
        (.tuple [.param 1 "berth", .int 0, .int 3]) (.param 1 "berth") {1, 3}
        [3, 0, 3].toFinset 3 := by
  have open_berths : Value.set [1, 3] = .ofSet {1, 3} :=
    Value.set_eq_ofSet (by decide) fun number => by simp
  exact setLaws_of_denotes (congrArg Except.ok open_berths) rfl (.list [3, 0, 3]) rfl

end Expr

end Dispatch
