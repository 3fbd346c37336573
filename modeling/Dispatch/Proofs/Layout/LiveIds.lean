import Mathlib.Data.List.Induction
import Dispatch.Schema

/-!
The ids in use. The ids of an entity type ascend and are those that it has; the live ids of a
collection lie below the next one. A change of a collection concerns one id.
-/

namespace Dispatch

-----------------------------------------------------------------------------------------
-- Collections
-----------------------------------------------------------------------------------------

namespace Items

variable {items : Items} {id : Int}

/-- The item of an id is that of its entry.

The ids ascend, so no other entry with the id stands before it and hides it from the lookup.
-/
theorem get?_eq_some_iff {item : Item}
    : items.get? id = some item ↔ (id, item) ∈ items.entries := by
  constructor
  · intro found
    obtain ⟨before, after, cut, _⟩ := List.lookup_eq_some_iff.mp found
    rw [cut]
    exact List.mem_append_right before List.mem_cons_self
  · intro member
    obtain ⟨before, after, cut⟩ := List.append_of_mem member
    have ascending := items.ascending
    rw [cut, List.map_append, List.pairwise_append] at ascending
    refine List.lookup_eq_some_iff.mpr ⟨before, after, cut, fun earlier inside => ?_⟩
    have below := ascending.2.2 _ (List.mem_map_of_mem inside) id List.mem_cons_self
    exact bne_iff_ne.mpr (Int.ne_of_gt below)

/-- The ids in use are those under which an item is found. -/
theorem mem_ids_iff (items : Items) (id : Int) : id ∈ items.ids ↔ items.contains id = true := by
  rw [contains, Option.isSome_iff_exists, ids, List.mem_map]
  constructor
  · rintro ⟨⟨_, item⟩, member, rfl⟩
    exact ⟨item, get?_eq_some_iff.mpr member⟩
  · rintro ⟨item, found⟩
    exact ⟨(id, item), get?_eq_some_iff.mp found, rfl⟩

/-- A live id was given: it lies below the next one, which is what every collection brings along for
all of its ids.
-/
theorem bounds_of_contains (live : items.contains id = true) : 0 ≤ id ∧ id < items.nextId :=
  items.given id ((items.mem_ids_iff id).mpr live)

/-- Two collections in which the same ids are live have the same list of ids, as both lists ascend.
-/
theorem ids_congr {left right : Items}
    (same : ∀ id, left.contains id = true ↔ right.contains id = true)
    : left.ids = right.ids := by
  refine List.Perm.eq_of_pairwise ?_ left.ascending right.ascending ?_
  · intro low high _ _ below above
    omega
  · refine (List.perm_ext_iff_of_nodup ?_ ?_).mpr fun id => ?_
    · exact left.ascending.imp Int.ne_of_lt
    · exact right.ascending.imp Int.ne_of_lt
    · rw [mem_ids_iff, mem_ids_iff, same]

/-- A collection is told by its next id, its live ids and their items. Entries stand in the order of
their ids, so the lists of entries agree position by position.
-/
theorem ext_ids {left right : Items} (next : left.nextId = right.nextId)
    (ids : left.ids = right.ids) (same : ∀ id ∈ left.ids, left.get? id = right.get? id)
    : left = right := by
  refine Items.ext (List.ext_getElem ?_ fun position inside inside' => ?_) next
  · simpa [Items.ids] using congrArg List.length ids
  · have key : left.entries[position].1 = right.entries[position].1 := by
      have inIds : position < left.ids.length := by simpa [Items.ids] using inside
      simpa [Items.ids] using List.getElem_of_eq ids inIds
    have own (items : Items) (below : position < items.entries.length)
        : items.get? items.entries[position].1 = some items.entries[position].2 :=
      get?_eq_some_iff.mpr (List.getElem_mem below)
    have found := own left inside
    rw [same _ (List.mem_map_of_mem (List.getElem_mem inside)), key, own right inside'] at found
    exact Prod.ext key (Option.some.inj found).symm

/-- An inserted item has the next id, and no other id changes. The next id lies above all that are
live, so the item replaces none.
-/
theorem get?_insert_eq (items : Items) (item : Item) (id : Int)
    : (items.insert item).get? id = if id = items.nextId then some item else items.get? id := by
  refine Option.ext fun found => ?_
  rw [get?_eq_some_iff, insert, List.mem_append, List.mem_singleton, Prod.mk.injEq]
  split
  · rename_i next
    have absent : (id, found) ∉ items.entries := by
      intro member
      have below := (items.given id (List.mem_map_of_mem member)).2
      omega
    rw [or_iff_right absent, next, Option.some.injEq, and_iff_right rfl, eq_comm]
  · rename_i other
    simp [other, get?_eq_some_iff]

/-- A change of the item of an id changes this id alone, and removes it where nothing is made of the
item.
-/
theorem get?_change_eq (items : Items) (id other : Int) (change : Item → Option Item)
    : (items.change id change).get? other
      = if id = other then (items.get? other).bind change else items.get? other := by
  refine Option.ext fun found => ?_
  have kept : (items.change id change).get? other = some found
      ↔ ∃ item, items.get? other = some item
        ∧ changed? id change (other, item) = some (other, found) := by
    rw [get?_eq_some_iff, Items.change, List.mem_filterMap]
    constructor
    · rintro ⟨⟨own, item⟩, member, made⟩
      obtain rfl := id_of_changed? made
      exact ⟨item, get?_eq_some_iff.mpr member, made⟩
    · rintro ⟨item, live, made⟩
      exact ⟨(other, item), get?_eq_some_iff.mp live, made⟩
  rw [kept]
  unfold changed?
  by_cases same : id = other
  · simp [same, Option.bind_eq_some_iff]
  · simp [same, Ne.symm same]

end Items

-----------------------------------------------------------------------------------------
-- Numbered items
-----------------------------------------------------------------------------------------

namespace Items

/-- The collection of the given items, each with its position as its id. -/
def numbered (items : List Item) : Items where
  entries := ((List.range items.length).map Int.ofNat).zip items
  nextId := items.length
  ascending := by
    rw [List.map_fst_zip (by simp), List.pairwise_map]
    exact List.pairwise_lt_range.imp Int.ofNat_lt.mpr
  given := by
    rw [List.map_fst_zip (by simp), List.forall_mem_map]
    intro position inside
    exact ⟨Int.natCast_nonneg position, Int.ofNat_lt.mpr (List.mem_range.mp inside)⟩

theorem ids_numbered (items : List Item)
    : (numbered items).ids = (List.range items.length).map Int.ofNat :=
  List.map_fst_zip (by simp)

/-- The items of a numbered collection are found at their positions. -/
theorem get?_numbered (items : List Item) (position : Nat)
    : (numbered items).get? position = items[position]? := by
  refine Option.ext fun item => ?_
  rw [get?_eq_some_iff, numbered, List.mem_iff_getElem?]
  simp only [List.getElem?_zip_eq_some, List.getElem?_map, Option.map_eq_some_iff]
  constructor
  · rintro ⟨other, ⟨_, there, same⟩, found⟩
    obtain ⟨_, rfl⟩ := List.getElem?_eq_some_iff.mp there
    rw [List.getElem_range] at same
    rwa [← Int.ofNat.inj same]
  · intro found
    obtain ⟨inside, _⟩ := List.getElem?_eq_some_iff.mp found
    exact ⟨position, ⟨position, List.getElem?_range inside, rfl⟩, found⟩

/-- Items that are added to an empty collection one after the other are numbered, by induction on
them from the last one.
-/
theorem foldl_insert_empty (items : List Item) : items.foldl insert empty = numbered items := by
  induction items using List.reverseRecOn with
  | nil => rfl
  | append_singleton items item ih =>
      rw [List.foldl_append, ih]
      refine Items.ext ?_ (by simp [insert, numbered])
      simp [insert, numbered, List.range_succ, List.zip_append]

end Items

-----------------------------------------------------------------------------------------
-- Entity types
-----------------------------------------------------------------------------------------

namespace State

/-- The ids of an entity type ascend strictly, whether they are positions or ids of items; so a
search meets each once, and in order.
-/
theorem ids_pairwise (state : State) (schema : Schema) (entity : Nat)
    : (state.ids schema entity).Pairwise (· < ·) := by
  unfold State.ids
  split
  · rename_i count _
    rw [List.pairwise_map]
    exact List.pairwise_lt_range.imp fun below => Int.ofNat_lt.mpr below
  · split
    · exact Items.ascending _
    · exact .nil
  · exact .nil

/-- The ids of an entity type are those that it has. -/
theorem mem_ids_iff (state : State) (schema : Schema) (entity : Nat) (id : Int)
    : id ∈ state.ids schema entity ↔ state.hasId schema entity id = true := by
  unfold State.ids hasId
  split
  · rename_i count _
    simp only [List.mem_map, List.mem_range, Bool.and_eq_true, decide_eq_true_eq]
    constructor
    · rintro ⟨position, below, rfl⟩
      simp only [Int.ofNat_eq_natCast]
      omega
    · rintro ⟨low, high⟩
      exact ⟨id.toNat, by omega, Int.toNat_of_nonneg low⟩
  · split
    · exact Items.mem_ids_iff _ id
    · simp
  · simp

end State

end Dispatch
