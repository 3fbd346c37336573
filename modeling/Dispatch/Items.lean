import Dispatch.Value

/-!
Items of a dynamic entity type. They are kept by their ids, which come from a counter of the
collection: the id of an added item lies above all that were given before, so no id is given twice.
-/

namespace Dispatch

/-- One live item: the values of its constant and of its mutable fields. -/
structure Item where
  constants : List Value
  mutables : List Value
deriving DecidableEq

namespace Item

def field? (item : Item) (constant : Bool) (slot : Nat) : Option Value :=
  if constant then item.constants[slot]? else item.mutables[slot]?

/-- The item with a mutable field given another value. -/
def setField (item : Item) (slot : Nat) (value : Value) : Item :=
  { item with mutables := item.mutables.set slot value }

end Item

/-- The live items of an entity type under their ids, which ascend, and the id that the next item
gets. Every change of a collection has to show that its ids still lie below the next one.
-/
@[ext]
structure Items where
  entries : List (Int × Item)
  nextId : Nat
  ascending : (entries.map Prod.fst).Pairwise (· < ·)
  given : ∀ id ∈ entries.map Prod.fst, 0 ≤ id ∧ id < nextId
deriving DecidableEq

namespace Items

/-- The collection before any item was added. -/
def empty : Items := ⟨[], 0, .nil, by simp⟩

/-- The ids in use, ascending. -/
def ids (items : Items) : List Int := items.entries.map Prod.fst

def get? (items : Items) (id : Int) : Option Item := items.entries.lookup id

def contains (items : Items) (id : Int) : Bool := (items.get? id).isSome

/-- The collection with one more item, under the next id. As this lies above all others, the entry
comes last.
-/
def insert (items : Items) (item : Item) : Items where
  entries := items.entries ++ [(↑items.nextId, item)]
  nextId := items.nextId + 1
  ascending := by
    rw [List.map_append, List.pairwise_append]
    refine ⟨items.ascending, List.pairwise_singleton _ _, fun id live next last => ?_⟩
    rw [List.mem_singleton.mp last]
    exact (items.given id live).2
  given := by
    rw [List.map_append, List.forall_mem_append]
    refine ⟨fun id live => ?_, fun id last => ?_⟩
    · have below := items.given id live
      omega
    · rw [List.mem_singleton.mp last]
      exact ⟨Int.natCast_nonneg _, Int.ofNat_lt.mpr (Nat.lt_succ_self _)⟩

/-- What a change of the item of an id makes of an entry, if anything. -/
def changed? (id : Int) (change : Item → Option Item) (entry : Int × Item) : Option (Int × Item) :=
  if entry.1 = id then (change entry.2).map (entry.1, ·) else some entry

/-- The item that a change makes has the id of the item before. -/
theorem id_of_changed? {id : Int} {change : Item → Option Item} {entry other : Int × Item}
    (made : changed? id change entry = some other)
    : other.1 = entry.1 := by
  unfold changed? at made
  split at made
  · obtain ⟨_, _, rfl⟩ := Option.map_eq_some_iff.mp made
    rfl
  · rw [Option.some.inj made]

/-- A change of an item leaves the ids in their order and adds none, by induction on the items. It
leaves one out where it makes no item of it.
-/
theorem changed?_sublist (id : Int) (change : Item → Option Item) (entries : List (Int × Item))
    : ((entries.filterMap (changed? id change)).map Prod.fst).Sublist (entries.map Prod.fst) := by
  induction entries with
  | nil => exact .slnil
  | cons entry rest ih =>
      rw [List.filterMap_cons]
      split
      · exact ih.cons entry.1
      · rename_i other made
        rw [List.map_cons, id_of_changed? made]
        exact ih.cons_cons entry.1

/-- The collection with the item of an id changed, and without it where nothing is made of it. -/
def change (items : Items) (id : Int) (change : Item → Option Item) : Items where
  entries := items.entries.filterMap (changed? id change)
  nextId := items.nextId
  ascending := items.ascending.sublist (changed?_sublist id change items.entries)
  given other live := items.given other ((changed?_sublist id change items.entries).subset live)

/-- The collection without the item of an id. -/
def remove (items : Items) (id : Int) : Items := items.change id fun _ => none

/-- The collection with the item of a live id replaced. -/
def replace (items : Items) (id : Int) (item : Item) : Items :=
  items.change id fun _ => some item

/-- The collection with the mutable field of a live item given another value. -/
def setField (items : Items) (id : Int) (slot : Nat) (value : Value) : Items :=
  items.change id fun item => some (item.setField slot value)

end Items

end Dispatch
