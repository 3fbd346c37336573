import Dispatch.Expr.Eval
import Dispatch.Proofs.Reading.Sequencing

/-!
Evaluation keeps sets and maps ascending. A set is kept as the ascending list of its members, and a
map as the list of its pairs with ascending keys. Literals are put in this order, adding and
removing members preserves it, and every other value of an expression is taken over from the store
or holds neither a set nor a map.
-/

namespace Dispatch

-----------------------------------------------------------------------------------------
-- Ascending lists
-----------------------------------------------------------------------------------------

namespace Ascending

variable {a b : Int} {list : List Int}

/-- An ascending list stays ascending with one more element, by induction on it: the element goes in
front of the first one that is greater, and in only once.
-/
theorem pairwise_insert (ascending : list.Pairwise (· < ·)) (a : Int)
    : (insert a list).Pairwise (· < ·) := by
  induction ascending with
  | nil => exact List.pairwise_singleton _ a
  | @cons first rest low ascending ih =>
      unfold insert
      split
      · rename_i before
        refine .cons (List.forall_mem_cons.mpr ⟨before, fun b member => ?_⟩) (.cons low ascending)
        exact Int.lt_trans before (low b member)
      · split
        · rename_i after
          refine .cons (fun b member => ?_) ih
          rcases mem_insert.mp member with rfl | old
          · exact after
          · exact low b old
        · exact .cons low ascending

/-- A list put in order is ascending, by induction on its elements, which are inserted one by one.
-/
theorem pairwise_ofList (elements : List Int) : (ofList elements).Pairwise (· < ·) := by
  induction elements with
  | nil => exact .nil
  | cons a rest ih => exact pairwise_insert ih a

/-- The keys of a map with one more pair are those of a set with one more element, by induction on
the pairs. A pair with a key that was there takes the place of the old one.
-/
theorem keys_addPair (key value : Int) (pairs : List (Int × Int))
    : (addPair key value pairs).map Prod.fst = insert key (pairs.map Prod.fst) := by
  induction pairs with
  | nil => rfl
  | cons first rest ih =>
      obtain ⟨other, held⟩ := first
      unfold addPair
      rw [List.map_cons, insert]
      split
      · rfl
      · split
        · rw [List.map_cons, ih]
        · rfl

/-- The keys of a map are those of its pairs in ascending order, by induction on the pairs. -/
theorem keys_ofPairs (pairs : List (Int × Int))
    : (ofPairs pairs).map Prod.fst = ofList (pairs.map Prod.fst) := by
  induction pairs with
  | nil => rfl
  | cons first rest ih =>
      have more := keys_addPair first.1 first.2 (ofPairs rest)
      rw [ih] at more
      exact more

/-- Erasing an element leaves the others in their order, by induction on the list. -/
theorem erase_sublist (a : Int) (list : List Int) : (erase a list).Sublist list := by
  induction list with
  | nil => exact .slnil
  | cons first rest ih =>
      unfold erase
      split
      · exact .refl _
      · split
        · exact ih.cons_cons first
        · exact List.sublist_cons_self first rest

/-- An element is erased from an ascending list and nothing else is, by induction on it.

Erasing stops at the first element that is not smaller, which is enough only because the list
ascends.
-/
theorem mem_erase (ascending : list.Pairwise (· < ·)) : b ∈ erase a list ↔ b ∈ list ∧ b ≠ a := by
  induction ascending with
  | nil => simp [erase]
  | @cons first rest low ascending ih =>
      unfold erase
      split
      · rename_i before
        refine ⟨fun member => ⟨member, ?_⟩, And.left⟩
        rintro rfl
        rcases List.mem_cons.mp member with rfl | later
        · exact Int.lt_irrefl _ before
        · exact Int.lt_irrefl _ (Int.lt_trans before (low _ later))
      · split
        · rename_i after
          rw [List.mem_cons, List.mem_cons, ih]
          constructor
          · rintro (rfl | ⟨old, other⟩)
            · exact ⟨.inl rfl, Int.ne_of_lt after⟩
            · exact ⟨.inr old, other⟩
          · rintro ⟨rfl | old, other⟩
            · exact .inl rfl
            · exact .inr ⟨old, other⟩
        · rename_i notBefore notAfter
          obtain rfl : a = first :=
            Int.le_antisymm (Int.not_lt.mp notAfter) (Int.not_lt.mp notBefore)
          refine ⟨fun later => ⟨List.mem_cons_of_mem _ later, ?_⟩, fun found => ?_⟩
          · exact (Int.ne_of_lt (low b later)).symm
          · exact (List.mem_cons.mp found.1).resolve_left found.2

end Ascending

namespace Value

variable {elements : List Int}

/-- Adding numbers to an ascending list gives an ascending list of them all, by induction on the
numbers.
-/
theorem union_ascending (ascending : elements.Pairwise (· < ·)) (more : List Int)
    : (union elements more).Pairwise (· < ·)
      ∧ ∀ number, number ∈ union elements more ↔ number ∈ elements ∨ number ∈ more := by
  induction more generalizing elements with
  | nil => exact ⟨ascending, fun number => by simp [union]⟩
  | cons first rest ih =>
      obtain ⟨sorted, members⟩ := ih (Ascending.pairwise_insert ascending first)
      refine ⟨sorted, fun number => (members number).trans ?_⟩
      rw [Ascending.mem_insert, List.mem_cons, or_comm (a := number = first), or_assoc]

/-- Removing numbers from an ascending list gives an ascending list of the others, by induction on
the numbers.
-/
theorem difference_ascending (ascending : elements.Pairwise (· < ·)) (fewer : List Int)
    : (difference elements fewer).Pairwise (· < ·)
      ∧ ∀ number, number ∈ difference elements fewer ↔ number ∈ elements ∧ number ∉ fewer := by
  induction fewer generalizing elements with
  | nil => exact ⟨ascending, fun number => by simp [difference]⟩
  | cons first rest ih =>
      obtain ⟨sorted, members⟩ := ih (ascending.sublist (Ascending.erase_sublist first elements))
      refine ⟨sorted, fun number => (members number).trans ?_⟩
      rw [Ascending.mem_erase ascending, List.mem_cons, not_or, and_assoc]

-----------------------------------------------------------------------------------------
-- Ascending values
-----------------------------------------------------------------------------------------

mutual

/-- The sets and maps in the value are ascending. -/
def Ascends : Value → Prop
  | .set elements => elements.Pairwise (· < ·)
  | .map pairs => (pairs.map Prod.fst).Pairwise (· < ·)
  | .seq elements => AllAscend elements
  | .int _ | .bool _ => True

def AllAscend : List Value → Prop
  | [] => True
  | element :: rest => element.Ascends ∧ AllAscend rest

end

theorem allAscend_iff {values : List Value}
    : AllAscend values ↔ ∀ value ∈ values, value.Ascends := by
  induction values with
  | nil => simp [AllAscend]
  | cons first rest ih => simp [AllAscend, ih]

/-- The initial value of every kind is ascending: a set or a map is empty at first. -/
theorem ascends_initial (kind : Kind) : (initial kind).Ascends := by
  cases kind with
  | int | bool => trivial
  | set | map => exact List.Pairwise.nil

/-- What a literal denotes is ascending, whatever the order in which the literal lists it. -/
theorem ascends_of_ofLiteral? {literal : Literal} {kind : Kind} {value : Value}
    (denoted : ofLiteral? literal kind = some value)
    : value.Ascends := by
  cases literal <;> cases kind <;> simp only [ofLiteral?, reduceCtorEq] at denoted <;>
    obtain rfl := Option.some.inj denoted
  case int.int | bool.bool => trivial
  case set.set elements => exact Ascending.pairwise_ofList elements
  case map.map pairs =>
    rw [Ascends, Ascending.keys_ofPairs]
    exact Ascending.pairwise_ofList _

/-- A number that is kept within the bounds is ascending, as every number is. -/
theorem exact_ascends (number : Int) : YieldsOnly Ascends (exact number) := by
  unfold exact
  split
  · exact .ok trivial
  · exact .error _

/-- Adding to an ascending value gives an ascending one: a number, or a set with further elements
inserted in order.
-/
theorem add_ascends {left : Value} (ascends : left.Ascends) (right : Value)
    : YieldsOnly Ascends (add left right) := by
  cases left with
  | int number =>
      cases right with
      | int other => exact exact_ascends _
      | _ => exact .error _
  | set elements => exact .bind fun more _ => .ok (union_ascending ascends more).1
  | _ => exact .error _

/-- Subtracting from an ascending value gives an ascending one: a number, or a set with elements
erased.
-/
theorem sub_ascends {left : Value} (ascends : left.Ascends) (right : Value)
    : YieldsOnly Ascends (sub left right) := by
  cases left with
  | int number =>
      cases right with
      | int other => exact exact_ascends _
      | _ => exact .error _
  | set elements => exact .bind fun fewer _ => .ok (difference_ascending ascends fewer).1
  | _ => exact .error _

theorem div_ascends (left right : Value) : YieldsOnly Ascends (div left right) := by
  refine .bind fun divisor _ => ?_
  dsimp only
  split
  · exact .error _
  · exact .bind fun dividend _ => exact_ascends _

theorem contains_ascends (element collection : Value)
    : YieldsOnly Ascends (contains element collection) := by
  cases collection with
  | set elements => exact .bind fun number _ => .ok trivial
  | map pairs => exact .bind fun key _ => .ok trivial
  | seq elements => exact .ok trivial
  | int number => exact .error _
  | bool truth => exact .error _

theorem mem_of_elementAt? {α : Type} {elements : List α} {position : Int} {element : α}
    (found : elementAt? elements position = some element)
    : element ∈ elements := by
  obtain ⟨place, _, found⟩ := Option.bind_eq_some_iff.mp found
  exact List.mem_of_getElem? found

/-- Indexing an ascending value gives an ascending one: a number of a set or a map, or an element of
a sequence, whose elements ascend with it.
-/
theorem index_ascends {collection : Value} (ascends : collection.Ascends) (key : Value)
    : YieldsOnly Ascends (index collection key) := by
  refine .bind fun position _ => ?_
  cases collection with
  | map pairs =>
      dsimp only
      split
      · exact .ok trivial
      · exact .error _
  | set elements =>
      dsimp only
      split
      · exact .ok trivial
      · exact .error _
  | seq elements =>
      dsimp only
      split
      · rename_i element found
        exact .ok (allAscend_iff.mp ascends element (mem_of_elementAt? found))
      · exact .error _
  | int number => exact .error _
  | bool truth => exact .error _

/-- An operator takes its value over from its left operand, or makes a number, a truth value or an
ascending set; what the right operand is does not matter.
-/
theorem operate_ascends (op : BinaryOp) {left : Value} (ascends : left.Ascends) (right : Value)
    : YieldsOnly Ascends (operate op left right) := by
  cases op with
  | equal | notEqual => exact .ok trivial
  | less | lessEqual | greater | greaterEqual | and | or =>
      exact .bind fun first _ => .bind fun second _ => .ok trivial
  | contains => exact contains_ascends left right
  | add => exact add_ascends ascends right
  | sub => exact sub_ascends ascends right
  | mul => exact .bind fun first _ => .bind fun second _ => exact_ascends _
  | div => exact div_ascends left right
  | index => exact index_ascends ascends right

end Value

/-- The bound values and the values that can be read are ascending. -/
structure Store.Ascends (schema : Schema) (store : Store) : Prop where
  bound : ∀ slot value, store.bindings.get? slot = some value → value.Ascends
  stored : ∀ place name index, YieldsOnly Value.Ascends (store.read schema place name index)

namespace Expr

variable {schema : Schema} {store : Store}

mutual

/-- The value of an expression is ascending where those of the store are, by induction on the
expression.

A literal list evaluates to a sequence, which counts as ascending when its elements do, in whatever
order these stand in it.
-/
theorem eval_ascends (ascends : store.Ascends schema) (expr : Expr)
    : YieldsOnly Value.Ascends (expr.eval schema store) := by
  cases expr with
  | int number => exact .ok trivial
  | bool truth => exact .ok trivial
  | entityType entity name => exact .ok trivial
  | param slot name =>
      rw [eval]
      split
      · rename_i value found
        exact .ok (ascends.bound slot value found)
      · exact .error _
  | tuple elements =>
      rw [eval]
      exact .bind fun values evaluated => .ok (evalAll_ascend ascends elements values evaluated)
  | read place name index =>
      rw [eval]
      exact .bind fun value _ => .bind fun number _ => ascends.stored place name number
  | isLive entity name id =>
      rw [eval]
      exact .bind fun value _ => .bind fun number _ => .ok trivial
  | not operand =>
      rw [eval]
      exact .bind fun value _ => .bind fun truth _ => .ok trivial
  | neg operand =>
      rw [eval]
      exact .bind fun value _ => .bind fun number _ => Value.exact_ascends _
  | binary op left right =>
      have operate : YieldsOnly Value.Ascends
          (left.eval schema store >>= fun first =>
            right.eval schema store >>= fun second => Value.operate op first second) :=
        .bind fun first evaluated => .bind fun second _ =>
          Value.operate_ascends op (eval_ascends ascends left first evaluated) second
      cases op with
      | and | or =>
          rw [eval]
          refine .bind fun value _ => .bind fun truth _ => ?_
          split
          all_goals first
            | exact .ok trivial
            | exact .bind fun value _ => .bind fun truth _ => .ok trivial
      | _ => exact operate

theorem evalAll_ascend (ascends : store.Ascends schema) (exprs : List Expr)
    : YieldsOnly Value.AllAscend (evalAll schema store exprs) := by
  cases exprs with
  | nil => exact .ok trivial
  | cons element rest =>
      rw [evalAll]
      exact .bind fun value evaluated => .bind fun values others =>
        .ok ⟨eval_ascends ascends element value evaluated,
          evalAll_ascend ascends rest values others⟩

end

end Expr

end Dispatch
