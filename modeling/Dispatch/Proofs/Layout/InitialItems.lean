import Mathlib.Data.List.Nodup
import Dispatch.Proofs.Declarations.LinkedVocabulary
import Dispatch.Proofs.Layout.LiveIds
import Dispatch.Proofs.Layout.SchemaLayout

/-!
The initial items of a problem. The rows that the start gives under the name of a dynamic entity
type are the first items of its collection, in order and with the ids from zero on. That takes the
names of the entity types to be distinct, and those of the entries.
-/

namespace Dispatch

-----------------------------------------------------------------------------------------
-- Adding items in order
-----------------------------------------------------------------------------------------

/-- Adding items to a state adds to each collection its own items, by induction on them, and in the
order in which they come.
-/
theorem State.collections_addItems (state : State) (added : List NewItem) (collection : Nat)
    : (state.addItems added).collections[collection]?
      = state.collections[collection]?.map fun items =>
          ((added.filter (·.collection = collection)).map (·.item)).foldl Items.insert items := by
  induction added generalizing state with
  | nil => simp [addItems]
  | cons first rest ih =>
      have next
          : (state.addItems (first :: rest)).collections[collection]?
            = ((state.addItem first).addItems rest).collections[collection]? :=
        rfl
      rw [next, ih, addItem, modifyCollection, List.getElem?_modify, Option.map_eq_map,
        Option.map_map]
      congr 1
      funext items
      by_cases own : first.collection = collection <;> simp [own]

theorem State.mutables_addItems (state : State) (added : List NewItem)
    : (state.addItems added).mutables = state.mutables := by
  induction added generalizing state with
  | nil => rfl
  | cons first rest ih => exact ih (state.addItem first)

/-- The items of a collection that was laid out from rows: one for each row, in order, with the
position of the row as its id.
-/
structure Items.HoldsRows (layout : CollectionLayout) (rows : List StartValue) (items : Items)
    : Prop where
  nextId : items.nextId = rows.length
  ids : items.ids = (List.range rows.length).map Int.ofNat
  item
    : ∀ (position : Nat) (row : StartValue), rows[position]? = some row
        → ∃ item, layout.ofRow row = .ok item ∧ items.get? position = some item

/-- Items that were read from rows and numbered hold the rows, each under the position of its row.
-/
theorem CollectionLayout.holdsRows_of_ofRows {layout : CollectionLayout} {rows : List StartValue}
    {given : List Item} (built : layout.ofRows rows = .ok given)
    : (Items.numbered given).HoldsRows layout rows := by
  have read := forall₂_of_ofRows built
  refine ⟨read.length_eq.symm, ?_, fun position row found => ?_⟩
  · rw [Items.ids_numbered, read.length_eq]
  · obtain ⟨inside, rfl⟩ := List.getElem?_eq_some_iff.mp found
    have there : position < given.length := by rwa [← read.length_eq]
    refine ⟨given[position], read.get inside there, ?_⟩
    rw [Items.get?_numbered, List.getElem?_eq_getElem there]

-----------------------------------------------------------------------------------------
-- Entries and their rows
-----------------------------------------------------------------------------------------

namespace StartEntry

/-- The rows that entries give under a name. -/
def rows (entries : List StartEntry) (name : String) : List StartValue :=
  ((find? entries name).map (·.values)).getD []

theorem rows_cons_self (entry : StartEntry) (rest : List StartEntry)
    : rows (entry :: rest) entry.name = entry.values := by
  simp [rows, find?]

theorem rows_cons_of_ne {entry : StartEntry} {name : String} (rest : List StartEntry)
    (other : entry.name ≠ name)
    : rows (entry :: rest) name = rows rest name := by
  simp [rows, find?, other]

/-- Entries give no rows under a name that none of them has. -/
theorem rows_of_not_mem {entries : List StartEntry} {name : String}
    (missing : name ∉ entries.map (·.name))
    : rows entries name = [] := by
  have none : find? entries name = none := by
    refine List.find?_eq_none.mpr fun entry member same => missing ?_
    exact List.mem_map.mpr ⟨entry, member, of_decide_eq_true same⟩
  rw [rows, none]
  rfl

/-- Entries that pass the check have distinct names, none of them seen before, by induction on the
entries.
-/
theorem nodup_of_checkDistinct {seen : List String} {entries : List StartEntry}
    (checked : checkDistinct seen entries = .ok ())
    : (entries.map (·.name)).Nodup ∧ ∀ name ∈ entries.map (·.name), name ∉ seen := by
  induction entries generalizing seen with
  | nil => simp
  | cons entry rest ih =>
      unfold checkDistinct at checked
      split at checked
      · cases checked
      · rename_i fresh
        obtain ⟨distinct, unseen⟩ := ih checked
        rw [List.map_cons, List.nodup_cons]
        refine ⟨⟨fun again => unseen _ again List.mem_cons_self, distinct⟩, ?_⟩
        refine List.forall_mem_cons.mpr ⟨by simpa using fresh, fun name member => ?_⟩
        exact fun old => unseen name member (List.mem_cons_of_mem _ old)

end StartEntry

namespace NewItem

variable {entities : List EntityLayout} {collections : List CollectionLayout} {collection : Nat}

/-- The items of an entry are those of its rows, all of them for the collection that its name stands
for.
-/
theorem ofEntry_eq_ok {layout : CollectionLayout} {entry : StartEntry} {added : List NewItem}
    (known : collections[collection]? = some layout)
    (built : ofEntry collections collection entry = .ok added)
    : ∃ items, layout.ofRows entry.values = .ok items ∧ added = items.map (⟨collection, ·⟩) := by
  unfold ofEntry at built
  rw [known] at built
  obtain ⟨items, read, done⟩ := bind_eq_ok_iff.mp built
  exact ⟨items, read, (Except.ok.inj done).symm⟩

/-- The items of an entry are all for the collection that its name stands for. -/
theorem collection_of_ofEntry {entry : StartEntry} {added : List NewItem}
    (built : ofEntry collections collection entry = .ok added)
    : ∀ one ∈ added, one.collection = collection := by
  unfold ofEntry at built
  split at built
  · obtain rfl := Except.ok.inj built
    simp
  · obtain ⟨items, _, done⟩ := bind_eq_ok_iff.mp built
    obtain rfl := Except.ok.inj done
    simp

/-- The items of entries are those of the first entry, if its name stands for a collection, and
those of the rest behind them.
-/
theorem ofEntries_cons {entry : StartEntry} {rest : List StartEntry} {added : List NewItem}
    (built : ofEntries entities collections (entry :: rest) = .ok added)
    : ∃ own more, (EntityLayout.collectionNamed? entities entry.name = none → own = [])
        ∧ (∀ named, EntityLayout.collectionNamed? entities entry.name = some named
          → ofEntry collections named entry = .ok own)
        ∧ ofEntries entities collections rest = .ok more ∧ added = own ++ more := by
  unfold ofEntries at built
  split at built
  · rename_i unnamed
    obtain ⟨_, empty, built⟩ := bind_eq_ok_iff.mp built
    obtain rfl := Except.ok.inj empty
    obtain ⟨more, moreBuilt, done⟩ := bind_eq_ok_iff.mp built
    refine ⟨[], more, fun _ => rfl, fun named found => ?_, moreBuilt, (Except.ok.inj done).symm⟩
    cases unnamed.symm.trans found
  · rename_i named found
    obtain ⟨own, ownBuilt, built⟩ := bind_eq_ok_iff.mp built
    obtain ⟨more, moreBuilt, done⟩ := bind_eq_ok_iff.mp built
    refine ⟨own, more, fun unnamed => ?_, fun other same => ?_, moreBuilt,
      (Except.ok.inj done).symm⟩
    · cases unnamed.symm.trans found
    · obtain rfl := Option.some.inj (found.symm.trans same)
      exact ownBuilt

/-- Where one name alone stands for a collection, the items that the start adds to the collection
are those of the rows under that name, by induction on the entries.
-/
theorem ofRows_of_ofEntries {layout : CollectionLayout} {entries : List StartEntry}
    {added : List NewItem} (known : collections[collection]? = some layout)
    (named
      : ∀ name, EntityLayout.collectionNamed? entities name = some collection
          ↔ name = layout.name)
    (distinct : (entries.map (·.name)).Nodup)
    (built : ofEntries entities collections entries = .ok added)
    : layout.ofRows (StartEntry.rows entries layout.name)
      = .ok ((added.filter (·.collection = collection)).map (·.item)) := by
  induction entries generalizing added with
  | nil =>
      obtain rfl := Except.ok.inj built
      rfl
  | cons entry rest ih =>
      obtain ⟨missing, distinct⟩ := List.nodup_cons.mp distinct
      obtain ⟨own, more, unnamed, ownBuilt, moreBuilt, rfl⟩ := ofEntries_cons built
      have others := ih distinct moreBuilt
      rw [List.filter_append, List.map_append]
      by_cases same : entry.name = layout.name
      · -- The rows of this entry are all there are: no later entry has the name.
        replace missing : layout.name ∉ rest.map (·.name) := same ▸ missing
        rw [StartEntry.rows_of_not_mem missing] at others
        rw [← Except.ok.inj others, ← same, StartEntry.rows_cons_self, List.append_nil]
        obtain ⟨items, read, rfl⟩ :=
          ofEntry_eq_ok known (ownBuilt collection ((named entry.name).mpr same))
        rw [read]
        simp [List.filter_map, Function.comp_def]
      · rw [StartEntry.rows_cons_of_ne rest same, others]
        have elsewhere : own.filter (·.collection = collection) = [] := by
          rw [List.filter_eq_nil_iff]
          intro one member belongs
          cases found : EntityLayout.collectionNamed? entities entry.name with
          | none =>
              rw [unnamed found] at member
              cases member
          | some other =>
              have its : one.collection = other :=
                collection_of_ofEntry (ownBuilt other found) one member
              rw [← its, of_decide_eq_true belongs] at found
              exact same ((named entry.name).mp found)
        rw [elsewhere]
        rfl

end NewItem

-----------------------------------------------------------------------------------------
-- Collections by name
-----------------------------------------------------------------------------------------

namespace EntityLayout

variable {vocabulary : Vocabulary} {entries : List StartEntry}

/-- The layout of an entity type is stored in the collection of the entity type, if it has one. -/
theorem storage_of_ofDecl {decl : EntityDecl} {layout : EntityLayout}
    (laid : ofDecl entries decl = .ok layout) (collection : Nat)
    : layout.storage = .dynamic collection ↔ decl.collection = some collection := by
  unfold ofDecl at laid
  split at laid
  · rename_i found owned
    obtain rfl := Except.ok.inj laid
    simp [owned]
  · rename_i free
    split at laid
    · obtain rfl := Except.ok.inj laid
      simp [free]
    · obtain ⟨count, _, done⟩ := bind_eq_ok_iff.mp laid
      obtain rfl := Except.ok.inj done
      simp [free]

/-- Layouts are stored in the collections of their entity types, by induction on the declarations.
-/
theorem storage_of_ofDecls {position : Nat} {decls : List EntityDecl}
    {layouts : List EntityLayout} {layout : EntityLayout}
    (laid : ofDecls entries decls = .ok layouts) (found : layouts[position]? = some layout)
    (collection : Nat)
    : layout.storage = .dynamic collection
      ↔ decls[position]?.bind (·.collection) = some collection := by
  induction decls generalizing position layouts with
  | nil =>
      obtain rfl := Except.ok.inj laid
      simp at found
  | cons decl rest ih =>
      obtain ⟨first, firstLaid, laid⟩ := bind_eq_ok_iff.mp laid
      obtain ⟨others, othersLaid, done⟩ := bind_eq_ok_iff.mp laid
      obtain rfl := Except.ok.inj done
      cases position with
      | zero =>
          obtain rfl := Option.some.inj found
          exact storage_of_ofDecl firstLaid collection
      | succ position => exact ih othersLaid found

/-- One name alone stands for a collection: that of the entity type that owns it.

The lookup goes by name and takes the first layout it finds, so the names have to be apart; that two
types never share a collection comes from the agreement of the vocabulary.
-/
theorem collectionNamed?_eq_some_iff {layouts : List EntityLayout} (linked : vocabulary.Linked)
    (laid : ofDecls entries vocabulary.entities = .ok layouts) {entity collection : Nat}
    (declared : vocabulary.collections[collection]? = some entity)
    {owner : EntityLayout} (owned : layouts[entity]? = some owner) (name : String)
    : collectionNamed? layouts name = some collection ↔ name = owner.name := by
  have apart : (layouts.map (·.name)).Nodup := by
    rw [names_of_ofDecls laid]
    exact linked.names_nodup
  have keeps := (linked.owned entity collection).mpr declared
  have stored : owner.storage = .dynamic collection :=
    (storage_of_ofDecls laid owned collection).mpr keeps
  constructor
  · intro named
    unfold collectionNamed? at named
    split at named
    · rename_i found
      obtain rfl := Option.some.inj named
      obtain ⟨layout, first, storage⟩ := Option.map_eq_some_iff.mp found
      obtain ⟨position, inside⟩ := List.mem_iff_getElem?.mp (List.mem_of_find?_eq_some first)
      -- The layout that is found belongs to the entity type that owns the collection.
      have index := (storage_of_ofDecls laid inside _).mp storage
      obtain rfl := linked.collection?_inj keeps index
      rw [owned] at inside
      obtain rfl := Option.some.inj inside
      have matched : owner.name = name := by simpa using List.find?_some first
      exact matched.symm
    · cases named
  · rintro rfl
    have member := List.mem_of_getElem? owned
    obtain ⟨layout, first⟩ : ∃ layout, layouts.find? (·.name = owner.name) = some layout := by
      refine Option.isSome_iff_exists.mp (List.find?_isSome.mpr ⟨owner, member, by simp⟩)
    have matched : layout.name = owner.name := by simpa using List.find?_some first
    obtain rfl := List.inj_on_of_nodup_map apart (List.mem_of_find?_eq_some first) member matched
    simp only [collectionNamed?, first, Option.map_some, stored]

end EntityLayout

-----------------------------------------------------------------------------------------
-- Initial states
-----------------------------------------------------------------------------------------

/-- The initial state of an accepted problem holds in each collection the rows that the start gives
under its name.

Entries of other names may stand between, and items of all collections are added in one go; what a
collection gets of them is told apart by its number.
-/
theorem Schema.holdsRows_of_ofProblem {domain : Domain} {problem : Problem} {schema : Schema}
    (coherent : domain.Coherent) (linked : domain.vocabulary.Linked)
    (laid : ofProblem domain problem = .ok schema) {collection : Nat} {layout : CollectionLayout}
    (known : schema.collections[collection]? = some layout)
    : ∃ items, schema.initial.collections[collection]? = some items
        ∧ items.HoldsRows layout (StartEntry.rows problem.initial layout.name) := by
  obtain ⟨_, checked, laid⟩ := bind_eq_ok_iff.mp laid
  obtain ⟨entities, entitiesLaid, laid⟩ := bind_eq_ok_iff.mp laid
  obtain ⟨tables, _, laid⟩ := bind_eq_ok_iff.mp laid
  obtain ⟨_, _, laid⟩ := bind_eq_ok_iff.mp laid
  obtain ⟨added, addedBuilt, laid⟩ := bind_eq_ok_iff.mp laid
  obtain ⟨batches, _, done⟩ := bind_eq_ok_iff.mp laid
  obtain rfl := Except.ok.inj done
  obtain ⟨names, _⟩ := StartEntry.nodup_of_checkDistinct checked
  -- The collection is declared for an entity type, whose layout gives it its name.
  have unsorted := collectionLayouts_eq_map entities coherent.describes.numbers
  have layouts := known
  rw [unsorted, List.getElem?_map] at layouts
  obtain ⟨decl, declared, rfl⟩ := Option.map_eq_some_iff.mp layouts
  have below : decl.entity < entities.length := by
    have same := congrArg List.length (EntityLayout.names_of_ofDecls entitiesLaid)
    rw [List.length_map, List.length_map] at same
    rw [same]
    exact coherent.describes.owners decl (List.mem_of_getElem? declared)
  have owned := List.getElem?_eq_getElem below
  have collected : domain.vocabulary.collections[collection]? = some decl.entity := by
    rw [coherent.describes.collections, List.getElem?_map, declared, Option.map_some]
  have read := NewItem.ofRows_of_ofEntries known
    (fun name => by
      simpa [owned] using EntityLayout.collectionNamed?_eq_some_iff linked entitiesLaid collected
        owned name)
    names addedBuilt
  refine ⟨_, ?_, CollectionLayout.holdsRows_of_ofRows read⟩
  rw [State.collections_addItems, List.getElem?_map, known, ← Items.foldl_insert_empty]
  rfl

end Dispatch
