import Dispatch.Proofs.Declarations.DomainCoherence
import Dispatch.Proofs.Layout.ItemRows

/-!
The schema of a problem lays out what its domain declares: a table for every variable, the slots of
each constness in order of declaration, and a collection of the declared fields for every dynamic
entity type. Its initial state is well formed, and so stays one to which its batches are added.
-/

namespace Dispatch

-----------------------------------------------------------------------------------------
-- Values of variables
-----------------------------------------------------------------------------------------

namespace VariableLayout

variable {layout : VariableLayout}

/-- The value is the default of the variable, or what a literal denotes for it. -/
def Supplies (layout : VariableLayout) (value : Value) : Prop :=
  value = .initial layout.decl.kind
    ∨ ∃ literal, Value.ofLiteral? literal layout.decl.kind = some value

/-- A supplied value is of the kind of the variable, as the default of a kind is and what a literal
denotes.
-/
theorem Supplies.hasKind {value : Value} (supplied : layout.Supplies value)
    : value.hasKind layout.decl.kind = true := by
  rcases supplied with rfl | ⟨literal, denoted⟩
  · cases layout.decl.kind <;> rfl
  · exact Value.hasKind_of_ofLiteral? denoted

theorem supplies_of_convert {given : StartValue} {value : Value}
    (converted : layout.convert given = .ok value)
    : layout.Supplies value :=
  Or.inr ⟨given.literal, Literal.ofLiteral?_of_valueFor converted⟩

/-- The variable has values that were supplied for it. -/
def Supplied (layout : VariableLayout) (values : Array Value) : Prop :=
  values.size = layout.length ∧ ∀ value ∈ values, layout.Supplies value

/-- A variable whose positions all have one supplied value is supplied. -/
theorem supplied_replicate {value : Value} (supplied : layout.Supplies value)
    : layout.Supplied (Array.replicate layout.length value) := by
  refine ⟨Array.size_replicate, ?_⟩
  intro one member
  obtain ⟨_, rfl⟩ := Array.mem_replicate.mp member
  exact supplied

/-- Given values are supplied where they are written over supplied ones, by induction on them. -/
theorem Supplied.write {next : Nat} {values written : Array Value} {given : List StartValue}
    (supplied : layout.Supplied values) (done : layout.write next values given = .ok written)
    : layout.Supplied written := by
  induction given generalizing next values with
  | nil =>
      obtain rfl := Except.ok.inj done
      exact supplied
  | cons first rest ih =>
      unfold VariableLayout.write at done
      dsimp only at done
      split at done
      · cases done
      · obtain ⟨value, converted, done⟩ := bind_eq_ok_iff.mp done
        refine ih ⟨?_, ?_⟩ done
        · simpa using supplied.1
        · intro one member
          rcases Array.mem_or_eq_of_mem_setIfInBounds member with old | rfl
          · exact supplied.2 one old
          · exact supplies_of_convert converted

/-- The initial values of a variable are supplied for it: the defaults, the one literal that stands
for all positions, or the values that are written over the defaults.
-/
theorem supplied_of_initial {entries : List StartEntry} {values : Array Value}
    (given : layout.initial entries = .ok values)
    : layout.Supplied values := by
  unfold initial at given
  split at given
  · obtain rfl := Except.ok.inj given
    exact supplied_replicate (Or.inl rfl)
  · unfold fill at given
    split at given
    · obtain ⟨value, converted, done⟩ := bind_eq_ok_iff.mp given
      obtain rfl := Except.ok.inj done
      exact supplied_replicate (supplies_of_convert converted)
    · split at given
      · cases given
      · exact (supplied_replicate (Or.inl rfl)).write given

theorem Supplied.holds {values : Array Value} (supplied : layout.Supplied values)
    : layout.Holds values :=
  ⟨supplied.1, fun value member => (supplied.2 value member).hasKind⟩

theorem decl_ofDecl (entities : List EntityLayout) (decl : VariableDecl)
    : (ofDecl entities decl).decl = decl := by
  unfold ofDecl
  split <;> rfl

end VariableLayout

/-- The tables of variables have supplied values and follow the declarations, by induction on these.
-/
theorem VariableTable.of_ofDecls {entities : List EntityLayout} {entries : List StartEntry}
    {decls : List VariableDecl} {tables : List VariableTable}
    (laid : ofDecls entities entries decls = .ok tables)
    : tables.map (·.layout.decl) = decls
      ∧ ∀ table ∈ tables, table.layout.Supplied table.values := by
  induction decls generalizing tables with
  | nil =>
      obtain rfl := Except.ok.inj laid
      simp
  | cons decl rest ih =>
      obtain ⟨values, given, laid⟩ := bind_eq_ok_iff.mp laid
      obtain ⟨others, othersLaid, done⟩ := bind_eq_ok_iff.mp laid
      obtain rfl := Except.ok.inj done
      obtain ⟨follow, supplied⟩ := ih othersLaid
      refine ⟨?_, List.forall_mem_cons.mpr ⟨VariableLayout.supplied_of_initial given, supplied⟩⟩
      rw [List.map_cons, follow, VariableLayout.decl_ofDecl]

-----------------------------------------------------------------------------------------
-- Entity types
-----------------------------------------------------------------------------------------

/-- The layouts of entity types keep their names, by induction on the declarations. -/
theorem EntityLayout.names_of_ofDecls {entries : List StartEntry} {decls : List EntityDecl}
    {layouts : List EntityLayout} (laid : ofDecls entries decls = .ok layouts)
    : layouts.map (·.name) = decls.map (·.name) := by
  induction decls generalizing layouts with
  | nil =>
      obtain rfl := Except.ok.inj laid
      rfl
  | cons decl rest ih =>
      obtain ⟨layout, one, laid⟩ := bind_eq_ok_iff.mp laid
      obtain ⟨others, othersLaid, done⟩ := bind_eq_ok_iff.mp laid
      obtain rfl := Except.ok.inj done
      rw [List.map_cons, List.map_cons, ih othersLaid]
      congr 1
      unfold ofDecl at one
      split at one
      · obtain rfl := Except.ok.inj one
        rfl
      · split at one
        · obtain rfl := Except.ok.inj one
          rfl
        · obtain ⟨count, _, done⟩ := bind_eq_ok_iff.mp one
          obtain rfl := Except.ok.inj done
          rfl

-----------------------------------------------------------------------------------------
-- New items
-----------------------------------------------------------------------------------------

namespace NewItem

/-- The item belongs to a collection and comes from a row of its fields. -/
def Given (collections : List CollectionLayout) (added : NewItem) : Prop :=
  ∃ layout row, collections[added.collection]? = some layout ∧ layout.ofRow row = .ok added.item

/-- Every item that is built from rows is built from one of them. -/
theorem exists_row_of_ofRows {layout : CollectionLayout} {rows : List StartValue}
    {items : List Item} (built : layout.ofRows rows = .ok items)
    : ∀ item ∈ items, ∃ row, layout.ofRow row = .ok item := by
  intro item member
  have read := CollectionLayout.forall₂_of_ofRows built
  obtain ⟨position, inside, rfl⟩ := List.getElem_of_mem member
  have there : position < rows.length := by rwa [read.length_eq]
  exact ⟨rows[position], read.get there inside⟩

variable {entities : List EntityLayout} {collections : List CollectionLayout}

/-- The items of an entry come from rows of its collection, both where they stand on the line of the
name and where they stand below it.
-/
theorem given_of_ofEntry {collection : Nat} {entry : StartEntry} {items : List NewItem}
    (built : ofEntry collections collection entry = .ok items)
    : ∀ added ∈ items, added.Given collections := by
  unfold ofEntry at built
  split at built
  · obtain rfl := Except.ok.inj built
    simp
  · rename_i layout known
    obtain ⟨rows, rowsBuilt, done⟩ := bind_eq_ok_iff.mp built
    obtain rfl := Except.ok.inj done
    intro added member
    obtain ⟨item, inside, rfl⟩ := List.mem_map.mp member
    obtain ⟨row, one⟩ := exists_row_of_ofRows rowsBuilt item inside
    exact ⟨layout, row, known, one⟩

/-- The items of the start come from rows, by induction on the entries. -/
theorem given_of_ofEntries {entries : List StartEntry} {items : List NewItem}
    (built : ofEntries entities collections entries = .ok items)
    : ∀ added ∈ items, added.Given collections := by
  induction entries generalizing items with
  | nil =>
      obtain rfl := Except.ok.inj built
      simp
  | cons entry rest ih =>
      unfold ofEntries at built
      split at built
      · obtain ⟨none, noneBuilt, built⟩ := bind_eq_ok_iff.mp built
        obtain rfl := Except.ok.inj noneBuilt
        obtain ⟨more, moreBuilt, done⟩ := bind_eq_ok_iff.mp built
        obtain rfl := Except.ok.inj done
        exact ih moreBuilt
      · obtain ⟨own, ownBuilt, built⟩ := bind_eq_ok_iff.mp built
        obtain ⟨more, moreBuilt, done⟩ := bind_eq_ok_iff.mp built
        obtain rfl := Except.ok.inj done
        exact List.forall_mem_append.mpr ⟨given_of_ofEntry ownBuilt, ih moreBuilt⟩

theorem given_of_ofBatch {entries : List StartEntry} {items : List NewItem}
    (built : ofBatch entities collections entries = .ok items)
    : ∀ added ∈ items, added.Given collections := by
  induction entries generalizing items with
  | nil =>
      obtain rfl := Except.ok.inj built
      simp
  | cons entry rest ih =>
      unfold ofBatch at built
      split at built
      · obtain ⟨own, ownBuilt, built⟩ := bind_eq_ok_iff.mp built
        obtain ⟨more, moreBuilt, done⟩ := bind_eq_ok_iff.mp built
        obtain rfl := Except.ok.inj done
        exact List.forall_mem_append.mpr ⟨given_of_ofEntry ownBuilt, ih moreBuilt⟩
      · cases built

theorem given_of_ofBatches {given : List (List StartEntry)} {batches : List (List NewItem)}
    (built : ofBatches entities collections given = .ok batches)
    : ∀ batch ∈ batches, ∀ added ∈ batch, added.Given collections := by
  induction given generalizing batches with
  | nil =>
      obtain rfl := Except.ok.inj built
      simp
  | cons entries rest ih =>
      obtain ⟨items, itemsBuilt, built⟩ := bind_eq_ok_iff.mp built
      obtain ⟨others, othersBuilt, done⟩ := bind_eq_ok_iff.mp built
      obtain rfl := Except.ok.inj done
      exact List.forall_mem_cons.mpr ⟨given_of_ofBatch itemsBuilt, ih othersBuilt⟩

end NewItem

-----------------------------------------------------------------------------------------
-- Schemas
-----------------------------------------------------------------------------------------

/-- The item fits the collection of the schema that it joins. -/
def NewItem.Fits (schema : Schema) (added : NewItem) : Prop :=
  ∃ layout, schema.collections[added.collection]? = some layout
    ∧ added.item.Fits schema added.collection layout

/-- A state stays well formed when fitting items join their collections, by induction on them. The
step is that one item joins its collection.
-/
theorem State.WellFormed.addItems {schema : Schema} {state : State} {added : List NewItem}
    (formed : state.WellFormed schema) (fits : ∀ one ∈ added, one.Fits schema)
    : (state.addItems added).WellFormed schema := by
  induction added generalizing state with
  | nil => exact formed
  | cons first rest ih =>
      obtain ⟨⟨layout, known, itemFits⟩, others⟩ := List.forall_mem_cons.mp fits
      refine ih (formed.addItem ?_) others
      intro other declared
      rw [known] at declared
      obtain rfl := Option.some.inj declared
      exact itemFits

namespace Schema

/-- The schema lays out the declarations of the domain, and only fitting values are in its initial
state and its batches.
-/
structure LaysOut (domain : Domain) (schema : Schema) : Prop where
  collections : schema.collections.map (·.fields) = domain.items.map (·.fields)
  titles : ∀ layout ∈ schema.collections, layout.name ≠ ""
  constants : schema.constants.length = domain.declarations.countP (·.constant)
  mutables : schema.mutables.length = domain.declarations.countP (!·.constant)
  initial : schema.initial.WellFormed schema
  batches : ∀ batch ∈ schema.batches, ∀ added ∈ batch, added.Fits schema

/-- The tables of a schema without items form a well-formed state. The empty collections fit
whatever their layouts are.
-/
theorem wellFormed_blank {schema : Schema} {tables : List VariableTable}
    (layouts : schema.mutables = tables.map (·.layout))
    (hold : ∀ table ∈ tables, table.layout.Holds table.values)
    : (State.mk (tables.map (·.values)) (schema.collections.map fun _ => .empty)).WellFormed
        schema := by
  refine ⟨?_, ?_, ?_, ?_⟩
  · rw [layouts, List.length_map, List.length_map]
  · intro slot layout values declared present
    rw [layouts, List.getElem?_map] at declared
    rw [List.getElem?_map] at present
    obtain ⟨table, found, rfl⟩ := Option.map_eq_some_iff.mp declared
    rw [found] at present
    obtain rfl := Option.some.inj present
    exact hold table (List.mem_of_getElem? found)
  · rw [List.length_map]
  · intro collection layout items declared present
    rw [List.getElem?_map] at present
    obtain ⟨_, _, rfl⟩ := Option.map_eq_some_iff.mp present
    exact Items.fit_empty schema collection layout

/-- An item from a row of a schema fits its collection, as it follows the fields of the layout and
these are numbered in order.
-/
theorem fits_of_given {schema : Schema} {added : NewItem}
    (numbered : ∀ layout ∈ schema.collections, FieldDecl.Numbered 0 0 layout.fields)
    (given : added.Given schema.collections)
    : added.Fits schema := by
  obtain ⟨layout, row, known, built⟩ := given
  exact ⟨layout, known, (CollectionLayout.kinded_of_ofRow built).fits
    (numbered layout (List.mem_of_getElem? known)) known⟩

theorem countP_of_follow {tables : List VariableTable} {decls : List VariableDecl}
    (follow : tables.map (·.layout.decl) = decls) (constness : VariableDecl → Bool)
    : (tables.filter (constness ·.layout.decl)).length = decls.countP constness := by
  rw [← follow, List.countP_map, List.countP_eq_length_filter]
  rfl

/-- A declared entity type keeps its name in the layouts, and it is not empty. -/
theorem name_ne_of_owner {vocabulary : Vocabulary} {entities : List EntityLayout} {entity : Nat}
    (names : entities.map (·.name) = vocabulary.entities.map (·.name))
    (named : ∀ decl ∈ vocabulary.entities, decl.name ≠ "")
    (owner : entity < vocabulary.entities.length)
    : (entities[entity]?.map (·.name)).getD "" ≠ "" := by
  rw [← List.getElem?_map, names, List.getElem?_map, List.getElem?_eq_getElem owner]
  exact named _ (List.getElem_mem owner)

/-- Items that are declared in order of their collections are laid out in this order: sorting them
by collection leaves them where they are.

Only the collections decide. A reader that gave out their numbers in another order would have its
items laid out in the order of the numbers.
-/
theorem collectionLayouts_eq_map {items : List ItemsDecl} (entities : List EntityLayout)
    (numbers : items.map (·.collection) = List.range items.length)
    : collectionLayouts entities items
      = items.map fun decl =>
          ⟨(entities[decl.entity]?.map (·.name)).getD "", decl.entity, decl.fields⟩ := by
  have ascending : (items.map (·.collection)).Pairwise (· ≤ ·) := by
    rw [numbers]
    exact List.pairwise_le_range
  have inOrder
      : items.Pairwise fun one other => decide (one.collection ≤ other.collection) = true :=
    (List.pairwise_map.mp ascending).imp fun below => decide_eq_true below
  unfold collectionLayouts
  rw [List.mergeSort_of_pairwise inOrder]

/-- The schema of a problem lays out its coherent domain.

The loading is taken apart step by step: the layouts of the entity types, the tables of the
variables, the collections and the items that are given. The sort of the collections leaves these in
order, as a coherent domain numbers them so.
-/
theorem laysOut_of_ofProblem {domain : Domain} {problem : Problem} {schema : Schema}
    (coherent : domain.Coherent) (laid : ofProblem domain problem = .ok schema)
    : schema.LaysOut domain := by
  obtain ⟨_, _, laid⟩ := bind_eq_ok_iff.mp laid
  obtain ⟨entities, entitiesLaid, laid⟩ := bind_eq_ok_iff.mp laid
  obtain ⟨tables, tablesLaid, laid⟩ := bind_eq_ok_iff.mp laid
  obtain ⟨_, _, laid⟩ := bind_eq_ok_iff.mp laid
  obtain ⟨items, itemsLaid, laid⟩ := bind_eq_ok_iff.mp laid
  obtain ⟨batches, batchesLaid, done⟩ := bind_eq_ok_iff.mp laid
  obtain rfl := Except.ok.inj done
  obtain ⟨follow, supplied⟩ := VariableTable.of_ofDecls tablesLaid
  have names := EntityLayout.names_of_ofDecls entitiesLaid
  have unsorted := collectionLayouts_eq_map entities coherent.describes.numbers
  rw [unsorted] at itemsLaid batchesLaid ⊢
  have numbered
      : ∀ layout ∈ domain.items.map fun items : ItemsDecl =>
          (⟨(entities[items.entity]?.map (·.name)).getD "", items.entity, items.fields⟩
            : CollectionLayout),
          FieldDecl.Numbered 0 0 layout.fields := by
    intro layout member
    obtain ⟨decl, inside, rfl⟩ := List.mem_map.mp member
    exact coherent.describes.fields decl inside
  refine ⟨?_, ?_, ?_, ?_, ?_, ?_⟩
  · simp
  · intro layout member
    obtain ⟨decl, inside, rfl⟩ := List.mem_map.mp member
    exact name_ne_of_owner names coherent.describes.entities
      (coherent.describes.owners decl inside)
  · exact countP_of_follow follow (·.constant)
  · rw [List.length_map]
    exact countP_of_follow follow (!·.constant)
  · refine State.WellFormed.addItems ?_ fun added member =>
      fits_of_given numbered (NewItem.given_of_ofEntries itemsLaid added member)
    exact wellFormed_blank rfl fun table member =>
      (supplied table (List.mem_filter.mp member).1).holds
  · intro batch inside added member
    exact fits_of_given numbered
      (NewItem.given_of_ofBatches batchesLaid batch inside added member)

end Schema

end Dispatch
