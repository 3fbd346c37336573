import Dispatch.Proofs.Layout.GivenEntries
import Dispatch.Proofs.Layout.NameResolution

/-!
A starting position can be written as a problem and is what the problem lays out. The counts, values
and rows of the position stand under the names of the domain; as these are apart, each entry is
found by its name alone, and the schema holds what was given, value for value and row for row.
-/

namespace Dispatch

-----------------------------------------------------------------------------------------
-- Starting positions
-----------------------------------------------------------------------------------------

/-- What a problem gives: a count for each entity type that is not dynamic, by its index, values for
each variable and rows for each collection in order of declaration, and batches of rows for
collections.
-/
structure StartingPosition where
  count : Nat → Int
  values : List (List Value)
  rows : List (List (List Value))
  batches : List (List (Nat × List (List Value)))

namespace Domain

/-- The fields of a collection. -/
def fieldsOf (domain : Domain) (collection : Nat) : List FieldDecl :=
  ((domain.items[collection]?).map (·.fields)).getD []

/-- The name of the entity type whose items a collection holds. -/
def itemsName (domain : Domain) (collection : Nat) : String :=
  ((domain.items[collection]?).map fun items => domain.vocabulary.entityName items.entity).getD ""

/-- The names of entity types, variables and fields. -/
def names (domain : Domain) : List String :=
  domain.vocabulary.entities.map (·.name) ++ domain.vocabulary.names.map (·.name)

/-- Every name of the domain is of its own and can head an entry. -/
structure NamesEntries (domain : Domain) : Prop where
  apart : domain.names.Nodup
  letter : ∀ name ∈ domain.names, Text.startsWith Text.isAlphabetic name.toList = true
  colon : ∀ name ∈ domain.names, ':' ∉ name.toList

end Domain

namespace StartingPosition

/-- The layouts of the entity types with the given counts. -/
def entities (position : StartingPosition) (domain : Domain) : List EntityLayout :=
  domain.vocabulary.entities.zipIdx.map fun pair =>
    .counted position.count pair.2 pair.1

/-- The variables with the given values. -/
def tables (position : StartingPosition) (domain : Domain) : List VariableTable :=
  List.zipWith
    (fun decl given => ⟨VariableLayout.ofDecl (position.entities domain) decl, given.toArray⟩)
    domain.declarations position.values

/-- The collections with the given rows, each under the position of its row as its id. -/
def items (position : StartingPosition) (domain : Domain) : List Items :=
  List.zipWith
    (fun items rows => .numbered (rows.map (Item.ofFields items.fields)))
    domain.items position.rows

/-- The items of the batches. -/
def arrivals (position : StartingPosition) (domain : Domain) : List (List NewItem) :=
  position.batches.map (·.flatMap fun group =>
    group.2.map fun row => ⟨group.1, Item.ofFields (domain.fieldsOf group.1) row⟩)

def countEntries (position : StartingPosition) (domain : Domain) : List WrittenEntry :=
  (domain.vocabulary.entities.zipIdx.filter fun pair =>
    (domain.vocabulary.collection? pair.2).isNone).map fun pair =>
      .values pair.1.name [.int (position.count pair.2)]

def valueEntries (position : StartingPosition) (domain : Domain) : List WrittenEntry :=
  List.zipWith (fun decl given => .values decl.name given) domain.declarations position.values

def rowEntries (position : StartingPosition) (domain : Domain) : List WrittenEntry :=
  List.zipWith (fun items rows => .rows (domain.vocabulary.entityName items.entity) rows)
    domain.items position.rows

/-- All entries of the start. -/
def startEntries (position : StartingPosition) (domain : Domain) : List WrittenEntry :=
  position.countEntries domain ++ position.valueEntries domain ++ position.rowEntries domain

def batchEntries (position : StartingPosition) (domain : Domain) : List (List WrittenEntry) :=
  position.batches.map (·.map fun group => .rows (domain.itemsName group.1) group.2)

/-- The position as the text of a problem. -/
def text (position : StartingPosition) (domain : Domain) : List Char :=
  problemText (position.startEntries domain) (position.batchEntries domain)

/-- The position has numbers of instances, as many values of the right kind for each variable as it
has positions, and rows that give each field a value of its kind.
-/
structure Fits (position : StartingPosition) (domain : Domain) : Prop where
  counts
    : ∀ index < domain.vocabulary.entities.length, domain.vocabulary.collection? index = none
        → 0 ≤ position.count index ∧ position.count index ≤ greatestNumber
  values
    : List.Forall₂ (fun decl given =>
        given.length = (VariableLayout.ofDecl (position.entities domain) decl).length
          ∧ ∀ value ∈ given, Value.Fits value decl.kind) domain.declarations position.values
  rows
    : List.Forall₂ (fun (items : ItemsDecl) rows => ∀ row ∈ rows, FitsFields items.fields row)
        domain.items position.rows
  batches
    : ∀ batch ∈ position.batches, ∀ group ∈ batch, group.1 < domain.items.length
        ∧ ∀ row ∈ group.2, FitsFields (domain.fieldsOf group.1) row

end StartingPosition

/-- The schema holds the position: the counts, the values of constants and of mutable variables, the
rows as items and the batches.
-/
structure Schema.Holds (domain : Domain) (position : StartingPosition) (schema : Schema)
    : Prop where
  entities : schema.entities = position.entities domain
  constants : schema.constants = (position.tables domain).filter (·.layout.decl.constant)
  mutables
    : schema.initial.mutables
      = ((position.tables domain).filter (!·.layout.decl.constant)).map (·.values)
  items : schema.initial.collections = position.items domain
  batches : schema.batches = position.arrivals domain

-----------------------------------------------------------------------------------------
-- Names of entries
-----------------------------------------------------------------------------------------

section

variable {domain : Domain} {position : StartingPosition}

/-- The name at an index below the number of entity types is that of an entity type. -/
theorem Vocabulary.entityName_eq {vocabulary : Vocabulary} {index : Nat}
    (inside : index < vocabulary.entities.length)
    : (vocabulary.entities.map (·.name))[index]? = some (vocabulary.entityName index) := by
  rw [List.getElem?_map, entityName, List.getElem?_eq_getElem inside]
  rfl

/-- Entity types with names of their own are told apart by these. -/
theorem Vocabulary.Linked.entityName_inj {vocabulary : Vocabulary}
    (linked : vocabulary.Linked) {one other : Nat} (oneInside : one < vocabulary.entities.length)
    (otherInside : other < vocabulary.entities.length)
    (same : vocabulary.entityName one = vocabulary.entityName other)
    : one = other := by
  have found : (vocabulary.entities.map (·.name))[one]?
      = (vocabulary.entities.map (·.name))[other]? := by
    rw [entityName_eq oneInside, entityName_eq otherInside, same]
  exact (List.getElem?_inj (by simpa using oneInside) linked.names_nodup).mp found

theorem Domain.entityName_mem_names {index : Nat}
    (inside : index < domain.vocabulary.entities.length)
    : domain.vocabulary.entityName index ∈ domain.names :=
  List.mem_append_left _ (List.mem_of_getElem? (Vocabulary.entityName_eq inside))

namespace StartingPosition

/-- A count is written for each entity type without a collection, and for no other, whose number of
items is told by its rows.
-/
theorem mem_countEntries {written : WrittenEntry}
    : written ∈ position.countEntries domain
      ↔ ∃ index < domain.vocabulary.entities.length, domain.vocabulary.collection? index = none
          ∧ written = .values (domain.vocabulary.entityName index)
              [.int (position.count index)] := by
  simp only [countEntries, List.mem_map, List.mem_filter, Option.isNone_iff_eq_none, Prod.exists,
    List.mk_mem_zipIdx_iff_getElem?]
  constructor
  · rintro ⟨decl, index, ⟨declared, free⟩, rfl⟩
    obtain ⟨inside, _⟩ := List.getElem?_eq_some_iff.mp declared
    refine ⟨index, inside, free, ?_⟩
    rw [Vocabulary.entityName, declared]
    rfl
  · rintro ⟨index, inside, free, rfl⟩
    refine ⟨_, index, ⟨List.getElem?_eq_getElem inside, free⟩, ?_⟩
    rw [Vocabulary.entityName, List.getElem?_eq_getElem inside]
    rfl

/-- Values are written for each variable, under its name. -/
theorem mem_valueEntries {written : WrittenEntry}
    : written ∈ position.valueEntries domain
      ↔ ∃ (index : Nat) (decl : VariableDecl) (given : List Value),
          domain.declarations[index]? = some decl ∧ position.values[index]? = some given
            ∧ written = .values decl.name given := by
  rw [valueEntries, List.mem_iff_getElem?]
  simp only [List.getElem?_zipWith_eq_some]
  constructor
  · rintro ⟨index, decl, given, declared, found, rfl⟩
    exact ⟨index, decl, given, declared, found, rfl⟩
  · rintro ⟨index, decl, given, declared, found, rfl⟩
    exact ⟨index, decl, given, declared, found, rfl⟩

/-- Rows are written for each collection, under the name of its entity type. -/
theorem mem_rowEntries {written : WrittenEntry}
    : written ∈ position.rowEntries domain
      ↔ ∃ (index : Nat) (decl : ItemsDecl) (rows : List (List Value)),
          domain.items[index]? = some decl ∧ position.rows[index]? = some rows
            ∧ written = .rows (domain.vocabulary.entityName decl.entity) rows := by
  rw [rowEntries, List.mem_iff_getElem?]
  simp only [List.getElem?_zipWith_eq_some]
  constructor
  · rintro ⟨index, decl, rows, declared, found, rfl⟩
    exact ⟨index, decl, rows, declared, found, rfl⟩
  · rintro ⟨index, decl, rows, declared, found, rfl⟩
    exact ⟨index, decl, rows, declared, found, rfl⟩

/-- What is put together from two lists of one length and depends on the first alone is what the
first gives, by induction on the two lists.
-/
theorem map_zipWith_left {α β γ δ : Type} (combine : α → β → γ) (view : γ → δ) (part : α → δ)
    (same : ∀ a b, view (combine a b) = part a) {left : List α} {right : List β}
    (long : left.length = right.length)
    : (List.zipWith combine left right).map view = left.map part := by
  induction left generalizing right with
  | nil => rfl
  | cons a left ih =>
      cases right with
      | nil => cases long
      | cons b right =>
          rw [List.zipWith_cons_cons, List.map_cons, same, ih (Nat.succ.inj long), List.map_cons]

theorem names_countEntries
    : ((position.countEntries domain).map (·.name)).Sublist
        (domain.vocabulary.entities.map (·.name)) := by
  have whole : domain.vocabulary.entities.zipIdx.map (·.1.name)
      = domain.vocabulary.entities.map (·.name) := by
    conv_rhs => rw [← List.zipIdx_map_fst 0 domain.vocabulary.entities, List.map_map]
    rfl
  rw [← whole, countEntries, List.map_map]
  exact List.filter_sublist.map _

theorem names_valueEntries (fits : position.Fits domain)
    : (position.valueEntries domain).map (·.name) = domain.declarations.map (·.name) :=
  map_zipWith_left (fun (decl : VariableDecl) given => WrittenEntry.values decl.name given)
    WrittenEntry.name VariableDecl.name (fun _ _ => rfl) fits.values.length_eq

theorem names_rowEntries (fits : position.Fits domain)
    : (position.rowEntries domain).map (·.name)
      = domain.items.map fun decl => domain.vocabulary.entityName decl.entity :=
  map_zipWith_left
    (fun (decl : ItemsDecl) => WrittenEntry.rows (domain.vocabulary.entityName decl.entity))
    WrittenEntry.name
    (fun decl => domain.vocabulary.entityName decl.entity) (fun _ _ => rfl) fits.rows.length_eq

/-- The collection of an entity type is the one that is declared for it. -/
theorem collection?_of_items (coherent : domain.Coherent) (linked : domain.vocabulary.Linked)
    {collection : Nat} {decl : ItemsDecl} (declared : domain.items[collection]? = some decl)
    : domain.vocabulary.collections[collection]? = some decl.entity
      ∧ domain.vocabulary.collection? decl.entity = some collection := by
  have collected : domain.vocabulary.collections[collection]? = some decl.entity := by
    rw [coherent.describes.collections, List.getElem?_map, declared, Option.map_some]
  exact ⟨collected, (linked.owned _ _).mpr collected⟩

/-- The entries of the start have names of their own.

Those of the counts and of the rows are entity types, which are apart as one has a collection and
the other has none; those of the values are variables, which are apart from entity types by
assumption.
-/
theorem nodup_startEntries (coherent : domain.Coherent) (linked : domain.vocabulary.Linked)
    (lists : domain.vocabulary.Lists domain.items domain.declarations)
    (names : domain.NamesEntries) (fits : position.Fits domain)
    : ((position.startEntries domain).map (·.name)).Nodup := by
  obtain ⟨_, storage, apart⟩ := List.nodup_append.mp names.apart
  have listed : (domain.declarations.map (·.name)).Sublist
      (domain.vocabulary.names.map (·.name)) := by
    rw [lists.names, List.map_append, List.map_map]
    exact List.sublist_append_right _ _
  have inside := coherent.describes.owners
  have owners : (domain.items.map fun decl => domain.vocabulary.entityName decl.entity).Nodup := by
    have owned := linked.collections_nodup
    rw [coherent.describes.collections] at owned
    have whole : (domain.items.map fun decl => domain.vocabulary.entityName decl.entity)
        = (domain.items.map (·.entity)).map domain.vocabulary.entityName := by
      rw [List.map_map]
      rfl
    rw [whole]
    refine List.Nodup.map_on (fun one oneMember other otherMember same => ?_) owned
    obtain ⟨decl, declared, rfl⟩ := List.mem_map.mp oneMember
    obtain ⟨decl', declared', rfl⟩ := List.mem_map.mp otherMember
    exact linked.entityName_inj (inside decl declared) (inside decl' declared') same
  rw [startEntries, List.map_append, List.map_append, names_valueEntries fits,
    names_rowEntries fits]
  refine List.nodup_append.mpr ⟨List.nodup_append.mpr ⟨?_, ?_, ?_⟩, owners, ?_⟩
  · exact names_countEntries.nodup linked.names_nodup
  · exact listed.nodup storage
  · exact fun name entity other variable_ =>
      apart name (names_countEntries.subset entity) other (listed.subset variable_)
  · intro name early other late
    obtain ⟨decl, declared, rfl⟩ := List.mem_map.mp late
    have entity := inside decl declared
    rcases List.mem_append.mp early with counted | stored
    · obtain ⟨written, member, rfl⟩ := List.mem_map.mp counted
      obtain ⟨index, below, free, rfl⟩ := mem_countEntries.mp member
      intro same
      obtain rfl := linked.entityName_inj below entity same
      obtain ⟨collection, found⟩ := List.mem_iff_getElem?.mp declared
      rw [(collection?_of_items coherent linked found).2] at free
      cases free
    · exact (apart _ (List.mem_of_getElem? (Vocabulary.entityName_eq entity)) _
        (listed.subset stored)).symm

-----------------------------------------------------------------------------------------
-- Entries that can be written
-----------------------------------------------------------------------------------------

/-- The name of an entity type can be written in front of an entry. -/
theorem entryName_of_entity (spelled : domain.Spelled) (names : domain.NamesEntries) {index : Nat}
    (inside : index < domain.vocabulary.entities.length)
    : EntryName (domain.vocabulary.entityName index) := by
  have listed := Domain.entityName_mem_names inside
  have text : NameText (domain.vocabulary.entityName index) := by
    rw [Vocabulary.entityName, List.getElem?_eq_getElem inside]
    exact spelled.entities _ (List.getElem_mem inside)
  exact ⟨text, names.letter _ listed, names.colon _ listed⟩

/-- Rows that fit fields can be written and read back: none is empty, and all of their values can be
stored.
-/
theorem readable_rows {fields : List FieldDecl} (some : fields ≠ []) {rows : List (List Value)}
    (fits : ∀ row ∈ rows, FitsFields fields row)
    : ∀ row ∈ rows, row ≠ [] ∧ ∀ value ∈ row, value.Stored := by
  intro row member
  have each := fits row member
  refine ⟨?_, fun value inside => ?_⟩
  · rintro rfl
    exact some (List.forall₂_nil_right_iff.mp each)
  · obtain ⟨position, found⟩ := List.mem_iff_getElem?.mp inside
    obtain ⟨below, rfl⟩ := List.getElem?_eq_some_iff.mp found
    exact (each.get (by rwa [each.length_eq]) below).stored

/-- The entries of the start can be written and read back, by cases on what they give. -/
theorem readable_startEntries (coherent : domain.Coherent)
    (lists : domain.vocabulary.Lists domain.items domain.declarations) (spelled : domain.Spelled)
    (names : domain.NamesEntries) (fits : position.Fits domain)
    : ∀ written ∈ position.startEntries domain, written.Readable := by
  intro written member
  rcases List.mem_append.mp member with early | row
  · rcases List.mem_append.mp early with count | variable_
    · obtain ⟨index, inside, free, rfl⟩ := mem_countEntries.mp count
      obtain ⟨natural, small⟩ := fits.counts index inside free
      refine ⟨entryName_of_entity spelled names inside, List.forall_mem_singleton.mpr ⟨?_, nofun⟩⟩
      have least : leastNumber ≤ 0 := by decide
      simp only [Value.Proper, inBounds, Bool.and_eq_true, decide_eq_true_eq]
      exact ⟨Int.le_trans least natural, small⟩
    · obtain ⟨index, decl, given, declared, found, rfl⟩ := mem_valueEntries.mp variable_
      have inside := List.mem_of_getElem? declared
      have listed : decl.name ∈ domain.names := by
        refine List.mem_append_right _ ?_
        rw [lists.names, List.map_append, List.map_map]
        exact List.mem_append_right _ (List.mem_map_of_mem inside)
      refine ⟨⟨spelled.declarations decl inside, names.letter _ listed, names.colon _ listed⟩, ?_⟩
      obtain ⟨below, rfl⟩ := List.getElem?_eq_some_iff.mp declared
      obtain ⟨below', rfl⟩ := List.getElem?_eq_some_iff.mp found
      exact fun value among => ((fits.values.get below below').2 value among).stored
  · obtain ⟨index, decl, rows, declared, found, rfl⟩ := mem_rowEntries.mp row
    have inside := List.mem_of_getElem? declared
    refine ⟨entryName_of_entity spelled names (coherent.describes.owners decl inside), ?_⟩
    refine readable_rows (spelled.items decl inside) ?_
    obtain ⟨below, rfl⟩ := List.getElem?_eq_some_iff.mp declared
    obtain ⟨below', rfl⟩ := List.getElem?_eq_some_iff.mp found
    exact fits.rows.get below below'

/-- The entries of the batches can be written and read back. -/
theorem readable_batchEntries (coherent : domain.Coherent) (spelled : domain.Spelled)
    (names : domain.NamesEntries) (fits : position.Fits domain)
    : ∀ batch ∈ position.batchEntries domain, ∀ written ∈ batch, written.Readable := by
  intro batch member written among
  obtain ⟨groups, listed, rfl⟩ := List.mem_map.mp member
  obtain ⟨group, inside, rfl⟩ := List.mem_map.mp among
  obtain ⟨below, rows⟩ := fits.batches groups listed group inside
  have declared := List.getElem?_eq_getElem below
  have own := List.getElem_mem below
  refine ⟨?_, ?_⟩
  · rw [Domain.itemsName, declared]
    exact entryName_of_entity spelled names (coherent.describes.owners _ own)
  · refine readable_rows ?_ rows
    rw [Domain.fieldsOf, declared]
    exact spelled.items _ own

-----------------------------------------------------------------------------------------
-- Laying out the entries
-----------------------------------------------------------------------------------------

/-- The collections of the schema of the position. -/
def collections (position : StartingPosition) (domain : Domain) : List CollectionLayout :=
  domain.items.map fun items =>
    ⟨((position.entities domain)[items.entity]?.map (·.name)).getD "", items.entity, items.fields⟩

/-- The entity types are laid out at their indices and under their names. -/
theorem getElem?_entities {index : Nat} (inside : index < domain.vocabulary.entities.length)
    : ∃ layout, (position.entities domain)[index]? = some layout
        ∧ layout.name = domain.vocabulary.entityName index := by
  have found : domain.vocabulary.entities.zipIdx[index]?
      = some (domain.vocabulary.entities[index], index) := by
    rw [List.getElem?_zipIdx, List.getElem?_eq_getElem inside, Option.map_some, Nat.zero_add]
  refine ⟨.counted position.count index domain.vocabulary.entities[index], ?_, ?_⟩
  · rw [entities, List.getElem?_map, found, Option.map_some]
  · rw [Vocabulary.entityName, List.getElem?_eq_getElem inside]
    rfl

/-- The collections are laid out at their numbers, under the names of their entity types and with
their fields.
-/
theorem getElem?_collections (coherent : domain.Coherent) {collection : Nat} {decl : ItemsDecl}
    (declared : domain.items[collection]? = some decl)
    : (position.collections domain)[collection]?
      = some ⟨domain.vocabulary.entityName decl.entity, decl.entity, decl.fields⟩ := by
  obtain ⟨layout, found, named⟩ := @getElem?_entities domain position _
    (coherent.describes.owners decl (List.mem_of_getElem? declared))
  rw [collections, List.getElem?_map, declared, Option.map_some, found, Option.map_some, named]
  rfl

/-- Each entry of the start is found under its name. -/
def FoundIn (position : StartingPosition) (domain : Domain) (entries : List StartEntry) : Prop :=
  ∀ written ∈ position.startEntries domain,
    ∃ entry, StartEntry.find? entries written.name = some entry ∧ written.Gives entry

section

variable {entries : List StartEntry}

/-- Entity types are laid out with their counts, where the entries of the counts are found; the
others are stored in their collections.
-/
theorem ofDecls_entities
    (found : position.FoundIn domain entries) (fits : position.Fits domain)
    : EntityLayout.ofDecls entries domain.vocabulary.entities
      = .ok (position.entities domain) := by
  refine EntityLayout.ofDecls_eq_ok fun pair member free => ?_
  obtain ⟨decl, index⟩ := pair
  have declared := List.mk_mem_zipIdx_iff_getElem?.mp member
  obtain ⟨inside, _⟩ := List.getElem?_eq_some_iff.mp declared
  replace free : domain.vocabulary.collection? index = none := by
    rw [Vocabulary.collection?, declared]
    exact free
  have named : domain.vocabulary.entityName index = decl.name := by
    rw [Vocabulary.entityName, declared]
    rfl
  have written : .values (domain.vocabulary.entityName index) [.int (position.count index)]
      ∈ position.countEntries domain :=
    mem_countEntries.mpr ⟨index, inside, free, rfl⟩
  obtain ⟨entry, same, gives⟩ :=
    found _ (List.mem_append_left _ (List.mem_append_left _ written))
  refine ⟨entry, ?_, StartEntry.count_of_gives (fits.counts index inside free).1 gives⟩
  rw [← named]
  exact same

/-- Variables are laid out with their values, where the entries of the values are found. -/
theorem ofDecls_tables
    (found : position.FoundIn domain entries) (fits : position.Fits domain)
    : VariableTable.ofDecls (position.entities domain) entries domain.declarations
      = .ok (position.tables domain) := by
  refine VariableTable.ofDecls_eq_ok
    (List.forall₂_of_length_eq_of_get fits.values.length_eq fun index below below' => ?_)
  obtain ⟨complete, each⟩ := fits.values.get below below'
  have written : .values domain.declarations[index].name position.values[index]
      ∈ position.valueEntries domain :=
    mem_valueEntries.mpr ⟨index, _, _, List.getElem?_eq_getElem below,
      List.getElem?_eq_getElem below', rfl⟩
  obtain ⟨entry, same, gives⟩ :=
    found _ (List.mem_append_left _ (List.mem_append_right _ written))
  refine ⟨entry, same, VariableLayout.fill_eq_ok ?_ complete gives⟩
  rw [VariableLayout.decl_ofDecl]
  exact each

/-- The rows of an entry are the items of their collection. -/
theorem ofEntry_of_gives (coherent : domain.Coherent) {collection : Nat} {decl : ItemsDecl}
    (declared : domain.items[collection]? = some decl) {rows : List (List Value)}
    (fits : ∀ row ∈ rows, FitsFields decl.fields row) {name : String} {entry : StartEntry}
    (gives : (WrittenEntry.rows name rows).Gives entry)
    : NewItem.ofEntry (position.collections domain) collection entry
      = .ok (rows.map fun row => ⟨collection, Item.ofFields decl.fields row⟩) := by
  have read := @CollectionLayout.ofRows_eq_ok
    ⟨domain.vocabulary.entityName decl.entity, decl.entity, decl.fields⟩ rows fits _ gives.values
  rw [NewItem.ofEntry, getElem?_collections coherent declared]
  refine bind_eq_ok_iff.mpr ⟨_, read, ?_⟩
  rw [List.map_map]
  rfl

/-- The name of an entity type with a collection stands for the collection, and no other name does,
as entity types have names of their own.
-/
theorem collectionNamed?_iff (coherent : domain.Coherent) (linked : domain.vocabulary.Linked)
    (laid
      : EntityLayout.ofDecls entries domain.vocabulary.entities
        = .ok (position.entities domain))
    {collection : Nat} {decl : ItemsDecl} (declared : domain.items[collection]? = some decl)
    (name : String)
    : EntityLayout.collectionNamed? (position.entities domain) name = some collection
      ↔ name = domain.vocabulary.entityName decl.entity := by
  obtain ⟨owner, owned, named⟩ := @getElem?_entities domain position _
    (coherent.describes.owners decl (List.mem_of_getElem? declared))
  rw [EntityLayout.collectionNamed?_eq_some_iff linked laid
    (collection?_of_items coherent linked declared).1 owned, named]

/-- The start is accepted: under the name of a collection stand its rows, which fit its fields. -/
theorem exists_ofEntries (coherent : domain.Coherent) (linked : domain.vocabulary.Linked)
    (laid
      : EntityLayout.ofDecls entries domain.vocabulary.entities
        = .ok (position.entities domain))
    (found : position.FoundIn domain entries) (apart : (entries.map (·.name)).Nodup)
    (fits : position.Fits domain)
    : ∃ items, NewItem.ofEntries (position.entities domain) (position.collections domain) entries
        = .ok items := by
  refine NewItem.exists_ofEntries fun entry member collection named => ?_
  cases declared : domain.items[collection]? with
  | none =>
      have missing : (position.collections domain)[collection]? = none := by
        rw [collections, List.getElem?_map, declared, Option.map_none]
      exact ⟨[], by rw [NewItem.ofEntry, missing]⟩
  | some decl =>
      have same := (collectionNamed?_iff coherent linked laid declared _).mp named
      obtain ⟨below, rfl⟩ := List.getElem?_eq_some_iff.mp declared
      have inside : collection < position.rows.length := by rwa [← fits.rows.length_eq]
      have given := List.getElem?_eq_getElem inside
      have written : .rows (domain.vocabulary.entityName domain.items[collection].entity)
          position.rows[collection] ∈ position.rowEntries domain :=
        mem_rowEntries.mpr ⟨collection, _, _, declared, given, rfl⟩
      obtain ⟨other, first, gives⟩ := found _ (List.mem_append_right _ written)
      obtain rfl : other = entry := by
        refine List.inj_on_of_nodup_map apart (List.mem_of_find?_eq_some first) member ?_
        rw [same]
        exact gives.name
      exact ⟨_, ofEntry_of_gives coherent declared (fits.rows.get below inside) gives⟩

/-- The batches are accepted with their items, by induction on the groups of each and on them. -/
theorem ofBatches_arrivals (coherent : domain.Coherent) (linked : domain.vocabulary.Linked)
    (laid
      : EntityLayout.ofDecls entries domain.vocabulary.entities
        = .ok (position.entities domain))
    (fits : position.Fits domain) {iterations : List (List StartEntry)}
    (gives
      : List.Forall₂ (List.Forall₂ WrittenEntry.Gives) (position.batchEntries domain) iterations)
    : NewItem.ofBatches (position.entities domain) (position.collections domain) iterations
      = .ok (position.arrivals domain) := by
  have one {groups : List (Nat × List (List Value))}
      (fits
        : ∀ group ∈ groups, group.1 < domain.items.length
          ∧ ∀ row ∈ group.2, FitsFields (domain.fieldsOf group.1) row)
      {batch : List StartEntry}
      (gives
        : List.Forall₂ WrittenEntry.Gives
            (groups.map fun group => .rows (domain.itemsName group.1) group.2) batch)
      : NewItem.ofBatch (position.entities domain) (position.collections domain) batch
        = .ok (groups.flatMap fun group =>
            group.2.map fun row => ⟨group.1, Item.ofFields (domain.fieldsOf group.1) row⟩) := by
    induction groups generalizing batch with
    | nil =>
        obtain rfl := List.forall₂_nil_left_iff.mp gives
        rfl
    | cons group groups ih =>
        obtain ⟨⟨below, rows⟩, others⟩ := List.forall_mem_cons.mp fits
        cases gives with
        | cons first gives =>
            have declared := List.getElem?_eq_getElem below
            have fields : domain.fieldsOf group.1 = domain.items[group.1].fields := by
              rw [Domain.fieldsOf, declared]
              rfl
            rw [fields] at rows
            have named := (collectionNamed?_iff coherent linked laid declared _).mpr
              (first.name.trans (by rw [WrittenEntry.name, Domain.itemsName, declared]; rfl))
            rw [NewItem.ofBatch, named]
            refine bind_eq_ok_iff.mpr ⟨_, ofEntry_of_gives coherent declared rows first, ?_⟩
            refine bind_eq_ok_iff.mpr ⟨_, ih others gives, ?_⟩
            rw [List.flatMap_cons, fields]
            rfl
  rw [batchEntries] at gives
  rw [arrivals]
  have all := fits.batches
  clear fits
  generalize position.batches = batches at gives all
  induction batches generalizing iterations with
  | nil =>
      obtain rfl := List.forall₂_nil_left_iff.mp gives
      rfl
  | cons groups batches ih =>
      obtain ⟨first, others⟩ := List.forall_mem_cons.mp all
      cases gives with
      | cons batch gives =>
          exact bind_eq_ok_iff.mpr
            ⟨_, one first batch, bind_eq_ok_iff.mpr ⟨_, ih gives others, rfl⟩⟩

/-- A name of the schema is that of a variable, and of no field, or that of a field. So an entry
with the name of a variable never meets a field.
-/
theorem declares_of_mem_names {tables : List VariableTable}
    (follow : tables.map (·.layout.decl) = domain.declarations) {name : String} {place : Place}
    (member
      : (name, place) ∈ Schema.variableNames .const 0 (tables.filter (·.layout.decl.constant))
          ++ Schema.variableNames .var 0 (tables.filter (!·.layout.decl.constant))
          ++ Schema.fieldNames 0 (position.collections domain))
    : (name ∈ domain.declarations.map (·.name)
        ∧ ∀ collection slot constant, place ≠ .field collection slot constant)
      ∨ name ∈ (ItemsDecl.names 0 domain.items).map (·.name) := by
  have declared (constness : VariableDecl → Bool) {position : Nat} {decl : VariableDecl}
      (found
        : ((tables.filter (constness ·.layout.decl)).map (·.layout.decl))[position]? = some decl)
      : decl.name ∈ domain.declarations.map (·.name) := by
    rw [Schema.filter_of_follow follow] at found
    exact List.mem_map_of_mem (List.mem_filter.mp (List.mem_of_getElem? found)).1
  rcases List.mem_append.mp member with variable_ | listed
  · refine .inl ?_
    rcases List.mem_append.mp variable_ with constant | mutable
    · obtain ⟨_, decl, found, rfl, rfl⟩ := Schema.mem_variableNames.mp constant
      exact ⟨declared (·.constant) found, nofun⟩
    · obtain ⟨_, decl, found, rfl, rfl⟩ := Schema.mem_variableNames.mp mutable
      exact ⟨declared (!·.constant) found, nofun⟩
  · obtain ⟨collection, fields, field, known, inside, rfl, _⟩ := Schema.mem_fieldNames.mp listed
    rw [collections, List.map_map, List.getElem?_map] at known
    obtain ⟨decl, found, rfl⟩ := Option.map_eq_some_iff.mp known
    refine .inr (List.mem_map.mpr ⟨field.named (0 + collection), ?_, rfl⟩)
    exact ItemsDecl.mem_names.mpr ⟨collection, decl, field, found, inside, rfl⟩

/-- A declared variable has a place in the schema, among the constants or among the mutable ones. -/
theorem exists_place_of_declared {tables : List VariableTable}
    (follow : tables.map (·.layout.decl) = domain.declarations) {decl : VariableDecl}
    (declared : decl ∈ domain.declarations)
    : ∃ place, (decl.name, place)
        ∈ Schema.variableNames .const 0 (tables.filter (·.layout.decl.constant))
          ++ Schema.variableNames .var 0 (tables.filter (!·.layout.decl.constant))
          ++ Schema.fieldNames 0 (position.collections domain) := by
  have found (constness : VariableDecl → Bool) (own : constness decl = true)
      : ∃ index : Nat, ((tables.filter (constness ·.layout.decl)).map (·.layout.decl))[index]?
          = some decl := by
    refine List.mem_iff_getElem?.mp ?_
    rw [Schema.filter_of_follow follow]
    exact List.mem_filter.mpr ⟨declared, own⟩
  cases constant : decl.constant with
  | true =>
      obtain ⟨index, same⟩ := found (·.constant) constant
      exact ⟨_, List.mem_append_left _ (List.mem_append_left _
        (Schema.mem_variableNames.mpr ⟨index, decl, same, rfl, rfl⟩))⟩
  | false =>
      obtain ⟨index, same⟩ := found (!·.constant) (by simp [constant])
      exact ⟨_, List.mem_append_left _ (List.mem_append_right _
        (Schema.mem_variableNames.mpr ⟨index, decl, same, rfl, rfl⟩))⟩

/-- Every entry of the start has the name of a variable, or of an entity type and no field, so the
check of the names lets it pass.
-/
theorem checkNames_eq_ok (coherent : domain.Coherent)
    (lists : domain.vocabulary.Lists domain.items domain.declarations)
    (names : domain.NamesEntries)
    (follow : (position.tables domain).map (·.layout.decl) = domain.declarations)
    (named : entries.map (·.name) = (position.startEntries domain).map (·.name))
    : Schema.checkNames (position.entities domain)
        (Schema.variableNames .const 0
            ((position.tables domain).filter (·.layout.decl.constant))
          ++ Schema.variableNames .var 0
            ((position.tables domain).filter (!·.layout.decl.constant))
          ++ Schema.fieldNames 0 (position.collections domain)) entries
      = .ok () := by
  obtain ⟨_, storage, apart⟩ := List.nodup_append.mp names.apart
  rw [lists.names, List.map_append, List.map_map] at storage apart
  obtain ⟨_, _, fieldsApart⟩ := List.nodup_append.mp storage
  -- An entity type shares its name with no variable and no field.
  have entity {index : Nat} (inside : index < domain.vocabulary.entities.length) (place : Place)
      : (domain.vocabulary.entityName index, place)
          ∉ Schema.variableNames .const 0
              ((position.tables domain).filter (·.layout.decl.constant))
            ++ Schema.variableNames .var 0
              ((position.tables domain).filter (!·.layout.decl.constant))
            ++ Schema.fieldNames 0 (position.collections domain)
        ∧ (position.entities domain).any (·.name = domain.vocabulary.entityName index) = true := by
    refine ⟨fun member => ?_, ?_⟩
    · refine apart _ (List.mem_of_getElem? (Vocabulary.entityName_eq inside)) _ ?_ rfl
      rcases declares_of_mem_names follow member with ⟨variable_, _⟩ | field
      · exact List.mem_append_right _ variable_
      · exact List.mem_append_left _ field
    · obtain ⟨layout, found, same⟩ := @getElem?_entities domain position _ inside
      exact List.any_eq_true.mpr
        ⟨layout, List.mem_of_getElem? found, by simpa using same⟩
  refine Schema.checkNames_eq_ok fun entry member => ?_
  have listed : entry.name ∈ (position.startEntries domain).map (·.name) := by
    rw [← named]
    exact List.mem_map_of_mem member
  obtain ⟨written, among, same⟩ := List.mem_map.mp listed
  rw [← same]
  rcases List.mem_append.mp among with early | row
  · rcases List.mem_append.mp early with count | variable_
    · obtain ⟨index, inside, _, rfl⟩ := mem_countEntries.mp count
      exact ⟨fun place _ _ _ found => absurd found (entity inside place).1,
        .inr (entity inside (.const 0)).2⟩
    · obtain ⟨index, decl, given, declared, _, rfl⟩ := mem_valueEntries.mp variable_
      have own := List.mem_of_getElem? declared
      refine ⟨fun place collection slot constant found => ?_, .inl ?_⟩
      · rcases declares_of_mem_names follow found with ⟨_, scalar⟩ | field
        · exact scalar collection slot constant
        · exact absurd rfl (fieldsApart _ field _ (List.mem_map_of_mem own))
      · exact exists_place_of_declared follow own
  · obtain ⟨index, decl, rows, declared, _, rfl⟩ := mem_rowEntries.mp row
    have inside := coherent.describes.owners decl (List.mem_of_getElem? declared)
    exact ⟨fun place _ _ _ found => absurd found (entity inside place).1,
      .inr (entity inside (.const 0)).2⟩

/-- Items that hold rows which were written are those of the rows, in order. -/
theorem numbered_of_holdsRows {layout : CollectionLayout} {rows : List (List Value)}
    (fits : ∀ row ∈ rows, FitsFields layout.fields row) {given : List StartValue}
    (matched : List.Forall₂ StartValue.Says (rows.map fun row => (Value.seq row).literal) given)
    {items : Items} (holds : items.HoldsRows layout given)
    : items = .numbered (rows.map (Item.ofFields layout.fields)) := by
  have counted : given.length = rows.length := by
    rw [← matched.length_eq, List.length_map]
  refine Items.ext_ids ?_ ?_ fun id live => ?_
  · rw [holds.nextId, counted, ← List.length_map (Item.ofFields layout.fields)]
    rfl
  · rw [holds.ids, Items.ids_numbered, List.length_map, counted]
  rw [holds.ids, counted] at live
  obtain ⟨index, below, rfl⟩ := List.mem_map.mp live
  have inside : index < rows.length := List.mem_range.mp below
  have read := (List.forall₂_map_left_iff.mp matched).get inside (by omega)
  obtain ⟨item, built, found⟩ :=
    holds.item index _ (List.getElem?_eq_getElem (counted ▸ inside))
  have same : Item.ofFields layout.fields rows[index] = item :=
    Except.ok.inj
      ((CollectionLayout.ofRow_eq_ok (fits _ (List.getElem_mem inside)) read).symm.trans built)
  rw [Int.ofNat_eq_natCast, found, Items.get?_numbered, List.getElem?_map,
    List.getElem?_eq_getElem inside, Option.map_some, same]

end

/-- The schema that is laid out from the entries of a position holds the position.

The parts are laid out one after the other, and each has a lemma of its own above; what is left is
that the entries are found under their names and that the checks in between let them pass.
-/
theorem exists_ofProblem (coherent : domain.Coherent) (linked : domain.vocabulary.Linked)
    (lists : domain.vocabulary.Lists domain.items domain.declarations)
    (names : domain.NamesEntries) (fits : position.Fits domain) {problem : Problem}
    (starts : List.Forall₂ WrittenEntry.Gives (position.startEntries domain) problem.initial)
    (arrives
      : List.Forall₂ (List.Forall₂ WrittenEntry.Gives) (position.batchEntries domain)
          problem.iterations)
    : ∃ schema, Schema.ofProblem domain problem = .ok schema ∧ schema.Holds domain position := by
  have nodup := nodup_startEntries coherent linked lists names fits
  have named := WrittenEntry.names_of_gives starts
  have found : position.FoundIn domain problem.initial := fun written member =>
    WrittenEntry.exists_find? starts nodup member
  have apart : (problem.initial.map (·.name)).Nodup := by rwa [named]
  have checked := @StartEntry.checkDistinct_eq_ok [] _ apart (by simp)
  have laid := ofDecls_entities found fits
  have tables := ofDecls_tables found fits
  have follow := (VariableTable.of_ofDecls tables).1
  have namesChecked := checkNames_eq_ok coherent lists names follow named
  obtain ⟨items, itemsBuilt⟩ := exists_ofEntries coherent linked laid found apart fits
  have batches := ofBatches_arrivals coherent linked laid fits arrives
  have unsorted : Schema.collectionLayouts (position.entities domain) domain.items
      = position.collections domain :=
    Schema.collectionLayouts_eq_map _ coherent.describes.numbers
  rw [← unsorted] at namesChecked itemsBuilt batches
  have whole : Schema.ofProblem domain problem = .ok _ :=
    bind_eq_ok_iff.mpr ⟨_, checked, bind_eq_ok_iff.mpr ⟨_, laid, bind_eq_ok_iff.mpr ⟨_, tables,
      bind_eq_ok_iff.mpr ⟨_, namesChecked, bind_eq_ok_iff.mpr ⟨_, itemsBuilt,
      bind_eq_ok_iff.mpr ⟨_, batches, rfl⟩⟩⟩⟩⟩⟩
  refine ⟨_, whole, rfl, rfl, State.mutables_addItems _ _, ?_, rfl⟩
  refine List.ext_getElem? fun collection => ?_
  cases declared : domain.items[collection]? with
  | none =>
      have missing : (position.items domain)[collection]? = none := by
        rw [StartingPosition.items, List.getElem?_zipWith, declared]
      rw [missing, State.collections_addItems, unsorted, collections, List.getElem?_map,
        List.getElem?_map, declared]
      rfl
  | some decl =>
      have known := @getElem?_collections domain position coherent _ _ declared
      rw [← unsorted] at known
      obtain ⟨own, present, holds⟩ := Schema.holdsRows_of_ofProblem coherent linked whole known
      obtain ⟨below, rfl⟩ := List.getElem?_eq_some_iff.mp declared
      have inside : collection < position.rows.length := by rwa [← fits.rows.length_eq]
      have given := List.getElem?_eq_getElem inside
      have written : .rows (domain.vocabulary.entityName domain.items[collection].entity)
          position.rows[collection] ∈ position.rowEntries domain :=
        mem_rowEntries.mpr ⟨collection, _, _, declared, given, rfl⟩
      obtain ⟨entry, first, gives⟩ := found _ (List.mem_append_right _ written)
      have rows : StartEntry.rows problem.initial
          (domain.vocabulary.entityName domain.items[collection].entity) = entry.values := by
        rw [StartEntry.rows]
        exact congrArg (fun one => (Option.map _ one).getD []) first
      rw [rows] at holds
      have numbered := numbered_of_holdsRows (fits.rows.get below inside) gives.values holds
      rw [StartingPosition.items, List.getElem?_zipWith, declared, given]
      exact present.trans (congrArg some numbered)

/-- Written under the names of an accepted domain, a position is accepted as a problem and laid out
as it was given.

The text goes through the reader of problems first, and the entries that it finds there are those
that were written; then the layout puts them where the position has them.
-/
theorem holds_of_text {source : List Char} (read : Domain.ofText source = .ok domain)
    (names : domain.NamesEntries) (fits : position.Fits domain)
    : ∃ problem schema, Problem.ofText (position.text domain) = .ok problem
        ∧ Schema.ofProblem domain problem = .ok schema ∧ schema.Holds domain position := by
  have coherent := Domain.coherent_of_ofText read
  have linked := Domain.linked_of_ofText read
  have lists := Domain.lists_of_ofText read
  have spelled := Domain.spelled_of_ofText read
  obtain ⟨problem, accepted, starts, arrives⟩ :=
    Problem.ofText_problemText (readable_startEntries coherent lists spelled names fits)
      (readable_batchEntries coherent spelled names fits)
  obtain ⟨schema, laid, holds⟩ :=
    exists_ofProblem coherent linked lists names fits starts arrives
  exact ⟨problem, schema, accepted, laid, holds⟩

/-- A domain with variables of every kind and items of two fields. -/
def marketText : List Char :=
  ["Start Domain:", "Entities:", "Stall, Parcel", "End Entities", "Variables:",
    "var stock - Stall", "const open BOOL", "var visits MULTY", "const price MATCH",
    "items Parcel const size INT var sealed BOOL", "End Variables", "End Domain"]
    |>.flatMap fun line => line.toList ++ ['\n']

/-- Two stalls, two parcels and a later batch of one. -/
def market : StartingPosition where
  count _ := 2
  values :=
    [[.int 4, .int leastNumber], [.bool true], [.set [-1, 3]], [.map [(0, 7), (5, -2)]]]
  rows := [[[.int 1, .bool false], [.int 8, .bool true]]]
  batches := [[(0, [[.int 6, .bool false]])], []]

/-- The market is written as a problem that lays it out. -/
theorem holds_of_market
    : ∃ domain problem schema, Domain.ofText marketText = .ok domain
        ∧ domain.NamesEntries ∧ market.Fits domain
        ∧ Problem.ofText (market.text domain) = .ok problem
        ∧ Schema.ofProblem domain problem = .ok schema ∧ schema.Holds domain market := by
  have shape
      : (Domain.ofText marketText).toOption.map (fun domain =>
          (domain.vocabulary, domain.declarations, domain.items))
        = some (
            { entities := [⟨"Stall", 0, none, none, 3⟩, ⟨"Parcel", 1, none, some 0, 3⟩]
              indices := [("Stall", 0), ("Parcel", 1)]
              collections := [1]
              fieldCounts := [2]
              names :=
                [⟨"size", .field 0 0 true, .int⟩, ⟨"sealed", .field 0 0 false, .bool⟩,
                  ⟨"stock", .var 0, .int⟩, ⟨"open", .const 0, .bool⟩, ⟨"visits", .var 1, .set⟩,
                  ⟨"price", .const 1, .map⟩] },
            [⟨"stock", .int, false, some 0, none, 0, 6⟩, ⟨"open", .bool, true, none, none, 0, 7⟩,
              ⟨"visits", .set, false, none, none, 1, 8⟩, ⟨"price", .map, true, none, none, 1, 9⟩],
            [⟨1, 0, [⟨"size", .int, true, 0⟩, ⟨"sealed", .bool, false, 0⟩], 10⟩]) := by
    decide +kernel
  obtain ⟨domain, accepted, shape⟩ := Option.map_eq_some_iff.mp shape
  obtain ⟨vocabulary, shape⟩ := Prod.mk.inj shape
  obtain ⟨declarations, items⟩ := Prod.mk.inj shape
  have names : domain.NamesEntries := by
    constructor <;> rw [Domain.names, vocabulary] <;> decide +kernel
  have number (value : Int) (small : inBounds value = true) : (Value.int value).Fits .int :=
    ⟨small, rfl⟩
  have row (size : Int) (isSealed : Bool) (small : inBounds size = true)
      : FitsFields [⟨"size", .int, true, 0⟩, ⟨"sealed", .bool, false, 0⟩]
          [.int size, .bool isSealed] :=
    .cons (number size small) (.cons ⟨trivial, rfl⟩ .nil)
  have fits : market.Fits domain := by
    constructor
    · exact fun _ _ _ => (by decide : (0 : Int) ≤ 2 ∧ (2 : Int) ≤ greatestNumber)
    · rw [declarations, market, StartingPosition.entities, vocabulary]
      refine .cons ⟨rfl, List.forall_mem_cons.mpr ⟨number 4 (by decide), ?_⟩⟩ ?_
      · exact List.forall_mem_singleton.mpr (number _ (by decide))
      refine .cons ⟨rfl, List.forall_mem_singleton.mpr ⟨trivial, rfl⟩⟩ ?_
      refine .cons ⟨rfl, List.forall_mem_singleton.mpr ⟨⟨by decide, by decide⟩, rfl⟩⟩ ?_
      exact .cons ⟨rfl, List.forall_mem_singleton.mpr ⟨⟨by decide, by decide⟩, rfl⟩⟩ .nil
    · rw [items]
      refine .cons (List.forall_mem_cons.mpr ⟨row 1 false (by decide), ?_⟩) .nil
      exact List.forall_mem_singleton.mpr (row 8 true (by decide))
    · refine List.forall_mem_cons.mpr ⟨?_, List.forall_mem_singleton.mpr nofun⟩
      refine List.forall_mem_singleton.mpr ⟨by rw [items]; exact Nat.one_pos, ?_⟩
      rw [Domain.fieldsOf, items]
      exact List.forall_mem_singleton.mpr (row 6 false (by decide))
  obtain ⟨problem, schema, written, laid, holds⟩ :=
    holds_of_text (ok_of_toOption accepted) names fits
  exact ⟨domain, problem, schema, ok_of_toOption accepted, names, fits, written, laid, holds⟩

end StartingPosition

end

end Dispatch
