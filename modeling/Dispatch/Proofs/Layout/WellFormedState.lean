import Dispatch.Proofs.Layout.LiveIds
import Dispatch.Update.Run

/-!
The shape that a schema demands of a state: an array of the declared length and kind for every
mutable variable, and a collection of fitting items for every layout. Every change of a state that
its check allows keeps the shape, because what is written has the kind of its place.
-/

namespace Dispatch

theorem Value.type_ne_seq_of_hasKind {value : Value} {kind : Kind}
    (kinded : value.hasKind kind = true)
    : value.type ≠ .seq := by
  intro sequence
  cases kind <;> simp [hasKind, sequence, Kind.valueType] at kinded

-----------------------------------------------------------------------------------------
-- Shapes
-----------------------------------------------------------------------------------------

/-- The values are as many as the variable has, and of its kind. -/
structure VariableLayout.Holds (layout : VariableLayout) (values : Array Value) : Prop where
  length : values.size = layout.length
  kinds : ∀ value ∈ values, value.hasKind layout.decl.kind = true

/-- The item has a value of the declared kind for each field of a collection, and no other. -/
structure Item.Fits (schema : Schema) (collection : Nat) (layout : CollectionLayout) (item : Item)
    : Prop where
  constants : item.constants.length = layout.fields.countP (·.constant)
  mutables : item.mutables.length = layout.fields.countP (!·.constant)
  kinds
    : ∀ constant slot value, item.field? constant slot = some value
        → ∃ kind, schema.kind? (.field collection slot constant) = some kind
            ∧ value.hasKind kind = true

/-- The items are those of a collection with a layout. -/
def Items.Fit (schema : Schema) (collection : Nat) (layout : CollectionLayout) (items : Items)
    : Prop :=
  ∀ id item, items.get? id = some item → item.Fits schema collection layout

/-- The state has the shape that the schema demands: fitting values for every mutable variable, and
fitting items for every collection.
-/
structure State.WellFormed (schema : Schema) (state : State) : Prop where
  tables : state.mutables.length = schema.mutables.length
  values
    : ∀ (slot : Nat) (layout : VariableLayout) (values : Array Value),
        schema.mutables[slot]? = some layout
        → state.mutables[slot]? = some values
        → layout.Holds values
  collections : state.collections.length = schema.collections.length
  items
    : ∀ (collection : Nat) (layout : CollectionLayout) (items : Items),
        schema.collections[collection]? = some layout
        → state.collections[collection]? = some items
        → items.Fit schema collection layout

/-- No variable and no field of a live item of the state holds a sequence. -/
structure State.StoresNoSequence (state : State) : Prop where
  values : ∀ values ∈ state.mutables, ∀ value ∈ values, value.type ≠ .seq
  items
    : ∀ items ∈ state.collections, ∀ id item, items.get? id = some item
        → ∀ value ∈ item.constants ++ item.mutables, value.type ≠ .seq

-----------------------------------------------------------------------------------------
-- Items
-----------------------------------------------------------------------------------------

namespace Items

/-- An item that is found after an insertion was there or is the inserted one. -/
theorem get?_insert {items : Items} {item found : Item} {id : Int}
    (present : (items.insert item).get? id = some found)
    : items.get? id = some found ∨ found = item := by
  rw [get?_insert_eq] at present
  split at present
  · exact Or.inr (Option.some.inj present).symm
  · exact Or.inl present

/-- An item that is found after a change of an item was there or is what the change made of that
item.
-/
theorem get?_change {items : Items} {id other : Int} {change : Item → Option Item} {found : Item}
    (present : (items.change id change).get? other = some found)
    : items.get? other = some found
        ∨ ∃ item, items.get? id = some item ∧ change item = some found := by
  rw [get?_change_eq] at present
  split at present
  · rename_i same
    exact Or.inr (same ▸ Option.bind_eq_some_iff.mp present)
  · exact Or.inl present

variable {schema : Schema} {collection : Nat} {layout : CollectionLayout} {items : Items}

theorem fit_empty (schema : Schema) (collection : Nat) (layout : CollectionLayout)
    : empty.Fit schema collection layout := by
  intro id item present
  cases present

/-- Items fit with a fitting item inserted, as all others are found as before. -/
theorem Fit.insert {item : Item} (fit : items.Fit schema collection layout)
    (fits : item.Fits schema collection layout)
    : (items.insert item).Fit schema collection layout := by
  intro id found present
  rcases get?_insert present with old | rfl
  · exact fit id found old
  · exact fits

theorem Fit.remove (fit : items.Fit schema collection layout) (id : Int)
    : (items.remove id).Fit schema collection layout := by
  intro other found present
  rcases get?_change present with old | ⟨_, _, made⟩
  · exact fit other found old
  · cases made

/-- Items fit with one of them replaced by a fitting item. No other id finds another item. -/
theorem Fit.replace {item : Item} (fit : items.Fit schema collection layout) (id : Int)
    (fits : item.Fits schema collection layout)
    : (items.replace id item).Fit schema collection layout := by
  intro other found present
  rcases get?_change present with old | ⟨_, _, made⟩
  · exact fit other found old
  · obtain rfl := Option.some.inj made
    exact fits

end Items

/-- An item fits with a mutable field given a value of the kind of the field. Its constants and the
number of its fields are the same, and only one slot has another value.
-/
theorem Item.Fits.setField {schema : Schema} {collection : Nat} {layout : CollectionLayout}
    {item : Item} {slot : Nat} {value : Value} {kind : Kind}
    (fits : item.Fits schema collection layout)
    (known : schema.kind? (.field collection slot false) = some kind)
    (kinded : value.hasKind kind = true)
    : (item.setField slot value).Fits schema collection layout := by
  refine ⟨fits.constants, ?_, ?_⟩
  · simpa [Item.setField] using fits.mutables
  · intro constant other found present
    by_cases written : constant = false ∧ other = slot
    · obtain ⟨rfl, rfl⟩ := written
      have same : found = value := by
        simp only [Item.field?, Item.setField, List.getElem?_set] at present
        split at present <;> simp_all
      exact ⟨kind, known, same ▸ kinded⟩
    · refine fits.kinds constant other found ?_
      cases constant with
      | true => exact present
      | false =>
          have different : slot ≠ other := by
            rintro rfl
            exact written ⟨rfl, rfl⟩
          simpa [Item.field?, Item.setField, List.getElem?_set_ne different] using present

theorem Items.Fit.setField {schema : Schema} {collection : Nat} {layout : CollectionLayout}
    {items : Items} {slot : Nat} {value : Value} {kind : Kind}
    (fit : items.Fit schema collection layout) (id : Int)
    (known : schema.kind? (.field collection slot false) = some kind)
    (kinded : value.hasKind kind = true)
    : (items.setField id slot value).Fit schema collection layout := by
  intro other found present
  rcases get?_change present with old | ⟨item, live, made⟩
  · exact fit other found old
  · obtain rfl := Option.some.inj made
    exact (fit id item live).setField known kinded

-----------------------------------------------------------------------------------------
-- Changes of a state
-----------------------------------------------------------------------------------------

namespace State

variable {schema : Schema} {state : State}

/-- The table of a well-formed state at a slot has a layout there, as there are as many of the ones
as of the others.
-/
theorem WellFormed.layout_of_values {slot : Nat} {values : Array Value}
    (formed : state.WellFormed schema) (present : state.mutables[slot]? = some values)
    : ∃ layout, schema.mutables[slot]? = some layout := by
  obtain ⟨inside, _⟩ := List.getElem?_eq_some_iff.mp present
  rw [formed.tables] at inside
  exact ⟨_, List.getElem?_eq_getElem inside⟩

theorem WellFormed.layout_of_items {collection : Nat} {items : Items}
    (formed : state.WellFormed schema) (present : state.collections[collection]? = some items)
    : ∃ layout, schema.collections[collection]? = some layout := by
  obtain ⟨inside, _⟩ := List.getElem?_eq_some_iff.mp present
  rw [formed.collections] at inside
  exact ⟨_, List.getElem?_eq_getElem inside⟩

/-- A well-formed state stores no sequence, for no kind admits one. This covers the values of its
variables and both fields of every live item.
-/
theorem WellFormed.storesNoSequence (formed : state.WellFormed schema)
    : state.StoresNoSequence := by
  constructor
  · intro values member value inside
    obtain ⟨slot, present⟩ := List.mem_iff_getElem?.mp member
    obtain ⟨layout, declared⟩ := formed.layout_of_values present
    exact Value.type_ne_seq_of_hasKind
      ((formed.values slot layout values declared present).kinds value inside)
  · intro items member id item live value inside
    obtain ⟨collection, present⟩ := List.mem_iff_getElem?.mp member
    obtain ⟨layout, declared⟩ := formed.layout_of_items present
    have fits := formed.items collection layout items declared present id item live
    rcases List.mem_append.mp inside with constant | mutable
    · obtain ⟨slot, found⟩ := List.mem_iff_getElem?.mp constant
      obtain ⟨kind, _, kinded⟩ := fits.kinds true slot value found
      exact Value.type_ne_seq_of_hasKind kinded
    · obtain ⟨slot, found⟩ := List.mem_iff_getElem?.mp mutable
      obtain ⟨kind, _, kinded⟩ := fits.kinds false slot value found
      exact Value.type_ne_seq_of_hasKind kinded

/-- A state stays well formed when one collection is changed so that its items fit. The variables
and the other collections are what they were.
-/
theorem WellFormed.modifyCollection (formed : state.WellFormed schema) (collection : Nat)
    {change : Items → Items}
    (keeps
      : ∀ layout items, schema.collections[collection]? = some layout
          → state.collections[collection]? = some items
          → (change items).Fit schema collection layout)
    : (state.modifyCollection collection change).WellFormed schema := by
  refine ⟨formed.tables, formed.values, ?_, ?_⟩
  · simpa [State.modifyCollection] using formed.collections
  · intro other layout items known present
    rw [State.modifyCollection, List.getElem?_modify] at present
    obtain ⟨before, found, rfl⟩ := Option.map_eq_some_iff.mp present
    split
    · rename_i same
      subst same
      exact keeps layout before known found
    · exact formed.items other layout before known found

theorem WellFormed.addItem {added : NewItem} (formed : state.WellFormed schema)
    (fits
      : ∀ layout, schema.collections[added.collection]? = some layout
          → added.item.Fits schema added.collection layout)
    : (state.addItem added).WellFormed schema :=
  formed.modifyCollection added.collection fun layout items known present =>
    (formed.items _ layout items known present).insert (fits layout known)

theorem WellFormed.removeItem (formed : state.WellFormed schema) (collection : Nat) (id : Int)
    : (state.modifyCollection collection (·.remove id)).WellFormed schema :=
  formed.modifyCollection collection fun layout items known present =>
    (formed.items _ layout items known present).remove id

theorem WellFormed.replaceItem {collection : Nat} {item : Item} (formed : state.WellFormed schema)
    (id : Int)
    (fits
      : ∀ layout, schema.collections[collection]? = some layout
          → item.Fits schema collection layout)
    : (state.modifyCollection collection (·.replace id item)).WellFormed schema :=
  formed.modifyCollection collection fun layout items known present =>
    (formed.items _ layout items known present).replace id (fits layout known)

/-- A state stays well formed when a value of the kind of a variable is written to it. A position
outside the variable is written to without effect, so the length stays.
-/
theorem WellFormed.setValue {slot position : Nat} {value : Value} {kind : Kind}
    (formed : state.WellFormed schema) (known : schema.kind? (.var slot) = some kind)
    (kinded : value.hasKind kind = true)
    : ({ state with
          mutables := state.mutables.modify slot (·.setIfInBounds position value) }
        : State).WellFormed schema := by
  refine ⟨?_, ?_, formed.collections, formed.items⟩
  · simpa using formed.tables
  · intro other layout values found present
    rw [List.getElem?_modify] at present
    obtain ⟨before, old, rfl⟩ := Option.map_eq_some_iff.mp present
    have holds := formed.values other layout before found old
    split
    · rename_i same
      subst same
      refine ⟨by simpa using holds.length, ?_⟩
      intro one member
      have same : layout.decl.kind = kind := by simpa [Schema.kind?, found] using known
      rcases Array.mem_or_eq_of_mem_setIfInBounds member with old | rfl
      · exact holds.kinds one old
      · rwa [same]
    · exact holds

-----------------------------------------------------------------------------------------
-- Writing
-----------------------------------------------------------------------------------------

/-- Refuses to write where no value is stored, which is the last check of a write. -/
def checkTarget (schema : Schema) (state : State) (place : Place) (name : String) (index : Int)
    : Except EvalError Unit := do
  match place with
  | .const _ => throw (.readOnly name)
  | .var slot =>
      let some values := state.mutables[slot]? | throw (.undefinedStorage name)
      if (valueAt? values index).isNone then
        throw (.indexOutOfBounds name index values.size)
  | .field collection slot _ =>
      let unknown := EvalError.unknownItem (schema.collectionName collection) index
      let some items := state.collections[collection]? | throw unknown
      let some item := items.get? index | throw unknown
      if item.mutables.length ≤ slot then throw (.undefinedStorage name)

/-- A write to a place that is not constant, of a value of its kind, is checked at its target:
neither of the two refusals before that applies.
-/
theorem checkWrite_eq_checkTarget {place : Place} {value : Value}
    (mutable : place.isConstant = false)
    (kinded : ∀ kind, schema.kind? place = some kind → value.hasKind kind = true) (name : String)
    (index : Int)
    : state.checkWrite schema place name index value
      = state.checkTarget schema place name index := by
  unfold checkWrite
  rw [mutable]
  cases known : schema.kind? place with
  | none => rfl
  | some kind =>
      dsimp only
      rw [kinded kind known]
      rfl

/-- A write is refused for a constant or for a value of another kind, and else is checked at its
target.
-/
theorem checkWrite_cases (schema : Schema) (state : State) (place : Place) (name : String)
    (index : Int) (value : Value)
    : (place.isConstant = true
        ∧ state.checkWrite schema place name index value = .error (.readOnly name))
      ∨ (∃ expected found,
          state.checkWrite schema place name index value = .error (.typeMismatch expected found))
      ∨ (place.isConstant = false
        ∧ (∀ kind, schema.kind? place = some kind → value.hasKind kind = true)
        ∧ state.checkWrite schema place name index value
          = state.checkTarget schema place name index) := by
  cases constant : place.isConstant with
  | true =>
      refine Or.inl ⟨rfl, ?_⟩
      unfold checkWrite
      rw [constant]
      rfl
  | false =>
      refine Or.inr ?_
      by_cases kinded : ∀ kind, schema.kind? place = some kind → value.hasKind kind = true
      · exact Or.inr ⟨rfl, kinded, checkWrite_eq_checkTarget constant kinded name index⟩
      · obtain ⟨kind, mismatch⟩ := Classical.not_forall.mp kinded
        obtain ⟨known, other⟩ := Classical.not_imp.mp mismatch
        refine Or.inl ⟨.single kind.valueType, value.type, ?_⟩
        unfold checkWrite
        rw [constant, known]
        dsimp only
        rw [Bool.eq_false_iff.mpr other]
        rfl

/-- A state stays well formed when a checked write is carried out.

The check has found the value to be of the kind of the place. The cases are those of the place: a
variable is written at a position, and a field is written in the item that its position names.
-/
theorem WellFormed.write {place : Place} {name : String} {index : Int} {value : Value}
    (formed : state.WellFormed schema)
    (allowed : state.checkWrite schema place name index value = .ok ())
    : (state.write place index value).WellFormed schema := by
  rcases checkWrite_cases schema state place name index value
    with ⟨_, refused⟩ | ⟨_, _, refused⟩ | ⟨mutable, kinded, checked⟩
  · rw [refused] at allowed
    cases allowed
  · rw [refused] at allowed
    cases allowed
  · rw [checked] at allowed
    cases place with
    | const slot => cases mutable
    | var slot =>
        unfold State.write
        dsimp only
        split
        · unfold checkTarget at allowed
          dsimp only at allowed
          split at allowed
          · rename_i values found
            obtain ⟨layout, declared⟩ := formed.layout_of_values found
            have known : schema.kind? (.var slot) = some layout.decl.kind := by
              simp only [Schema.kind?, declared, Option.map_some]
            exact formed.setValue known (kinded _ known)
          · cases allowed
        · exact formed
    | field collection slot constant =>
        obtain rfl : constant = false := mutable
        unfold checkTarget at allowed
        dsimp only at allowed
        split at allowed
        · rename_i items found
          split at allowed
          · rename_i item live
            split at allowed
            · cases allowed
            · rename_i below
              obtain ⟨layout, declared⟩ := formed.layout_of_items found
              have fits := formed.items collection layout items declared found index item live
              obtain ⟨kind, known, _⟩ :=
                fits.kinds false slot item.mutables[slot] (List.getElem?_eq_getElem _)
              refine formed.modifyCollection collection ?_
              intro layout items declared present
              exact (formed.items _ layout items declared present).setField index known
                (kinded kind known)
          · cases allowed
        · cases allowed

end State

end Dispatch
