import Mathlib
import Dispatch.Proofs.Effects.SingleEffects
import Dispatch.Proofs.Layout.NameResolution
import Dispatch.Proofs.Scoping.EffectScopes

/-!
The fields of an item read what was given for them, in order of declaration, whether the item comes
from a row of a problem, is added or takes the place of another. An item keeps its constant and its
mutable values apart, in whatever order the fields are declared; a field has its value at its slot
because the fields of a constness are numbered in the order in which the values were put.
-/

namespace Dispatch

open Execution

-----------------------------------------------------------------------------------------
-- Items filled field by field
-----------------------------------------------------------------------------------------

namespace Item

variable {α : Type} {gives : FieldDecl → α → Value → Prop} {fields : List FieldDecl}
  {given : List α} {item : Item}

/-- Behind values of earlier fields, a field has its value at its slot; by induction on the fields,
each of which leaves one more value behind for those after it.
-/
theorem Filled.field?_append (filled : Filled gives fields given item)
    (constants mutables : List Value)
    (numbered : FieldDecl.Numbered constants.length mutables.length fields)
    : List.Forall₂ (fun field one => ∃ value, gives field one value
        ∧ field? ⟨constants ++ item.constants, mutables ++ item.mutables⟩ field.constant field.slot
          = some value) fields given := by
  induction filled generalizing constants mutables with
  | nil => exact .nil
  | @cons field fields one given item value first _ ih =>
      obtain ⟨slot, numbered⟩ := numbered
      cases constant : field.constant with
      | true =>
          simp only [constant, if_true] at slot numbered
          refine .cons ⟨value, first, by simp [field?, constant, slot]⟩ ?_
          have others := ih (constants ++ [value]) mutables (by simpa using numbered)
          simpa using others
      | false =>
          simp only [constant, Bool.false_eq_true, if_false] at slot numbered
          refine .cons ⟨value, first, by simp [field?, constant, slot]⟩ ?_
          have others := ih constants (mutables ++ [value]) (by simpa using numbered)
          simpa using others

/-- An item that was filled has the value of each field at its slot, where constant and mutable
fields are numbered apart.
-/
theorem Filled.field? (filled : Filled gives fields given item)
    (numbered : FieldDecl.Numbered 0 0 fields)
    : List.Forall₂ (fun field one => ∃ value, gives field one value
        ∧ item.field? field.constant field.slot = some value) fields given :=
  filled.field?_append [] [] numbered

end Item

-----------------------------------------------------------------------------------------
-- Values of expressions
-----------------------------------------------------------------------------------------

/-- What an expression gives a field: its value in the store. -/
def Store.Gives (schema : Schema) (store : Store) (_ : FieldDecl) (expr : Expr) (value : Value)
    : Prop :=
  expr.eval schema store = .ok value

/-- As many expressions as fields fill a new item with their values. -/
theorem Store.filled_of_newItem {schema : Schema} {store : Store} {collection : Nat}
    {layout : CollectionLayout} (known : schema.collections[collection]? = some layout)
    {exprs : List Expr} (complete : exprs.length = layout.fields.length) {item : Item}
    (made : store.newItem schema collection exprs = .ok item)
    : item.Filled (store.Gives schema) layout.fields exprs := by
  obtain ⟨other, values, found, evaluated, built⟩ := row_of_newItem made
  obtain rfl := Option.some.inj (known.symm.trans found)
  have filled := CollectionLayout.filled_of_row (Expr.forall₂_of_evalAll evaluated) complete built
  exact filled.mono fun _ _ _ given => given.1

-----------------------------------------------------------------------------------------
-- Fields by their names
-----------------------------------------------------------------------------------------

namespace Domain

variable {source : List Char} {domain : Domain} {collection : Nat} {decl : ItemsDecl}

/-- A field of items is found by its name. -/
theorem place?_of_field (read : ofText source = .ok domain)
    (declared : domain.items[collection]? = some decl) {field : FieldDecl}
    (inside : field ∈ decl.fields)
    : domain.vocabulary.place? field.name
      = some (.field collection field.slot field.constant) := by
  have member : field.named collection ∈ domain.vocabulary.names := by
    rw [(lists_of_ofText read).names]
    refine List.mem_append_left _ (ItemsDecl.mem_names.mpr ?_)
    exact ⟨collection, decl, field, declared, inside, by rw [Nat.zero_add]⟩
  have found := (Vocabulary.name?_eq_some_iff (names_nodup_of_ofText read)).mpr ⟨member, rfl⟩
  exact Option.map_eq_some_iff.mpr ⟨_, found, rfl⟩

/-- Only the name of a field of items is found in their collection, as every name of the vocabulary
was declared as a variable or a field.
-/
theorem field_of_place? (read : ofText source = .ok domain)
    (declared : domain.items[collection]? = some decl) {name : String} {slot : Nat}
    {constant : Bool}
    (named : domain.vocabulary.place? name = some (.field collection slot constant))
    : ∃ field ∈ decl.fields, field.name = name := by
  obtain ⟨one, found, same⟩ := Option.map_eq_some_iff.mp named
  obtain ⟨member, rfl⟩ := (Vocabulary.name?_eq_some_iff (names_nodup_of_ofText read)).mp found
  rw [(lists_of_ofText read).names] at member
  rcases List.mem_append.mp member with item | other
  · obtain ⟨position, other, field, otherDeclared, inside, rfl⟩ := ItemsDecl.mem_names.mp item
    simp only [FieldDecl.named, Place.field.injEq, Nat.zero_add] at same
    obtain ⟨rfl, _, _⟩ := same
    obtain rfl := Option.some.inj (declared.symm.trans otherDeclared)
    exact ⟨field, inside, rfl⟩
  · obtain ⟨variableDecl, _, rfl⟩ := List.mem_map.mp other
    cases constant : variableDecl.constant <;>
      simp [VariableDecl.named, VariableDecl.place, constant] at same

end Domain

/-- The item with an id reads, field by field, what is given for it. -/
def Store.Shows {α : Type} (vocabulary : Vocabulary) (schema : Schema) (store : Store) (id : Int)
    (gives : FieldDecl → α → Value → Prop) (fields : List FieldDecl) (given : List α)
    : Prop :=
  List.Forall₂ (fun field one => ∃ value, gives field one value
    ∧ readName vocabulary schema store field.name id = .ok value) fields given

/-- A live item reads what fills it, field by field, under the names of its fields. -/
theorem Store.shows_of_filled {source : List Char} {domain : Domain}
    (read : Domain.ofText source = .ok domain) {collection : Nat} {decl : ItemsDecl}
    (declared : domain.items[collection]? = some decl) {α : Type}
    {gives : FieldDecl → α → Value → Prop} {given : List α} {item : Item}
    (filled : item.Filled gives decl.fields given) {schema : Schema} {store : Store} {id : Int}
    (live : store.state.item? collection id = some item)
    : Shows domain.vocabulary schema store id gives decl.fields given := by
  have numbered := (Domain.coherent_of_ofText read).describes.fields decl
    (List.mem_of_getElem? declared)
  have places (field : FieldDecl) (inside : field ∈ decl.fields)
      : domain.vocabulary.place? field.name
        = some (.field collection field.slot field.constant) :=
    Domain.place?_of_field read declared inside
  refine ((List.forall₂_and_left ..).mpr ⟨places, filled.field? numbered⟩).imp ?_
  rintro field one ⟨named, value, given, stored⟩
  refine ⟨value, given, ?_⟩
  rw [readName_eq _ _ _ _ named, read_field, live, Option.elim_some, stored, Option.elim_some]

/-- Whatever is read other than a field of the item with an id reads as before. -/
def Store.ReadsAlike (vocabulary : Vocabulary) (schema : Schema) (fields : List FieldDecl)
    (id : Int) (before after : Store) : Prop :=
  ∀ name index, (index = id → ∀ field ∈ fields, field.name ≠ name)
    → readName vocabulary schema after name index = readName vocabulary schema before name index

/-- Where nothing but one item of a collection has changed, every name but those of its fields reads
as before, and so do these at every other id.
-/
theorem Store.readsAlike {source : List Char} {domain : Domain}
    (read : Domain.ofText source = .ok domain) {collection : Nat} {decl : ItemsDecl}
    (declared : domain.items[collection]? = some decl) {schema : Schema} {before after : Store}
    {id : Int} (mutables : after.state.mutables = before.state.mutables)
    (items
      : ∀ other index, ¬(collection = other ∧ id = index)
          → after.state.item? other index = before.state.item? other index)
    : ReadsAlike domain.vocabulary schema decl.fields id before after := by
  intro name index apart
  cases named : domain.vocabulary.place? name with
  | none => simp only [readName, named]
  | some place =>
      rw [readName_eq _ _ _ _ named, readName_eq _ _ _ _ named]
      cases place with
      | const slot => rfl
      | var slot => rw [read_var, read_var, mutables]
      | field other slot constant =>
          rw [read_field, read_field, items]
          rintro ⟨rfl, rfl⟩
          obtain ⟨field, inside, same⟩ := Domain.field_of_place? read declared named
          exact apart rfl field inside same

section

variable {source : List Char} {domain : Domain} {collection : Nat} {decl : ItemsDecl} {α : Type}
  {gives : FieldDecl → α → Value → Prop} {given : List α} {item : Item} {store : Store}

/-- An added item reads what fills it, and everything else reads as before. It takes the next id, at
which there was nothing to read.
-/
theorem Store.shows_addItem (read : Domain.ofText source = .ok domain)
    (declared : domain.items[collection]? = some decl)
    (filled : item.Filled gives decl.fields given) {items : Items}
    (stored : store.state.collections[collection]? = some items) (schema : Schema)
    : Shows domain.vocabulary schema
        { store with state := store.state.addItem ⟨collection, item⟩ } items.nextId gives
        decl.fields given
      ∧ ReadsAlike domain.vocabulary schema decl.fields items.nextId store
          { store with state := store.state.addItem ⟨collection, item⟩ } := by
  refine ⟨shows_of_filled read declared filled ?_,
    readsAlike read declared rfl fun other index apart => ?_⟩
  · rw [State.item?_addItem stored, if_pos ⟨rfl, rfl⟩]
  · rw [State.item?_addItem stored, if_neg fun same => apart ⟨same.1, same.2.symm⟩]

/-- An item in the place of another reads what fills it, and everything else reads as before. -/
theorem Store.shows_replace (read : Domain.ofText source = .ok domain)
    (declared : domain.items[collection]? = some decl)
    (filled : item.Filled gives decl.fields given) {id : Int}
    (used : (store.state.item? collection id).isSome = true) (schema : Schema)
    : Shows domain.vocabulary schema
        { store with state := store.state.modifyCollection collection (·.replace id item) } id
        gives decl.fields given
      ∧ ReadsAlike domain.vocabulary schema decl.fields id store
          { store with
              state := store.state.modifyCollection collection (·.replace id item) } := by
  obtain ⟨old, present⟩ := Option.isSome_iff_exists.mp used
  refine ⟨shows_of_filled read declared filled ?_,
    readsAlike read declared rfl fun other index apart => ?_⟩
  · refine (State.item?_change id _ collection id).trans ?_
    rw [if_pos ⟨rfl, rfl⟩, present]
    rfl
  · exact (State.item?_change id _ other index).trans (if_neg apart)

end

-----------------------------------------------------------------------------------------
-- Rows, added items and replaced items
-----------------------------------------------------------------------------------------

/-- A collection that passes the check exists in the state. -/
theorem State.lt_of_checkCollection {schema : Schema} {state : State} {collection : Nat}
    (allowed : state.checkCollection schema collection = .ok ())
    : collection < state.collections.length := by
  unfold checkCollection at allowed
  split at allowed
  · assumption
  · cases allowed

/-- An item that passes the check is live in the state. -/
theorem State.isSome_item?_of_checkItem {schema : Schema} {state : State} {collection : Nat}
    {id : Int} (allowed : state.checkItem schema collection id = .ok ())
    : (state.item? collection id).isSome = true := by
  unfold checkItem at allowed
  split at allowed
  · rename_i live
    obtain ⟨items, stored, live⟩ := (Option.any_eq_true _ _).mp live
    rw [item?, stored]
    exact live
  · cases allowed

/-- A collection of items is laid out under the name of its entity type, with the fields as they
were declared; that items are sorted by their collections changes nothing, as they are declared in
this order.
-/
theorem Schema.layout_of_items {domain : Domain} {problem : Problem} {schema : Schema}
    (coherent : domain.Coherent) (laid : ofProblem domain problem = .ok schema) {collection : Nat}
    {decl : ItemsDecl} (declared : domain.items[collection]? = some decl)
    : schema.collections[collection]?
      = some ⟨domain.vocabulary.entityName decl.entity, decl.entity, decl.fields⟩ := by
  obtain ⟨_, _, laid⟩ := bind_eq_ok_iff.mp laid
  obtain ⟨entities, entitiesLaid, laid⟩ := bind_eq_ok_iff.mp laid
  obtain ⟨_, _, laid⟩ := bind_eq_ok_iff.mp laid
  obtain ⟨_, _, laid⟩ := bind_eq_ok_iff.mp laid
  obtain ⟨_, _, laid⟩ := bind_eq_ok_iff.mp laid
  obtain ⟨_, _, done⟩ := bind_eq_ok_iff.mp laid
  obtain rfl := Except.ok.inj done
  have owner := coherent.describes.owners decl (List.mem_of_getElem? declared)
  have unsorted := collectionLayouts_eq_map entities coherent.describes.numbers
  have name
      : entities[decl.entity]?.map (·.name)
        = some (domain.vocabulary.entityName decl.entity) := by
    rw [← List.getElem?_map, EntityLayout.names_of_ofDecls entitiesLaid, List.getElem?_map,
      List.getElem?_eq_getElem owner, Vocabulary.entityName, List.getElem?_eq_getElem owner]
    rfl
  rw [unsorted, List.getElem?_map, declared, Option.map_some, name]
  rfl

/-- In the initial state of an accepted problem the items read what their rows give: the id of a row
is its position, and the row was filled in field by field.
-/
theorem Schema.shows_initial {source : List Char} {domain : Domain} {problem : Problem}
    {schema : Schema} (read : Domain.ofText source = .ok domain)
    (laid : ofProblem domain problem = .ok schema) {collection : Nat} {decl : ItemsDecl}
    (declared : domain.items[collection]? = some decl) {position : Nat} {row : StartValue}
    (given
      : (StartEntry.rows problem.initial (domain.vocabulary.entityName decl.entity))[position]?
        = some row)
    (bindings : Bindings)
    : Store.Shows domain.vocabulary schema ⟨schema.initial, bindings⟩ position
        CollectionLayout.Denotes decl.fields row.literals := by
  have coherent := Domain.coherent_of_ofText read
  have known := layout_of_items coherent laid declared
  obtain ⟨items, present, holds⟩ :=
    holdsRows_of_ofProblem coherent (Domain.linked_of_ofText read) laid known
  obtain ⟨item, built, live⟩ := holds.item position row given
  have filled := CollectionLayout.filled_of_ofRow built
  refine Store.shows_of_filled read declared filled ?_
  rw [State.item?, present]
  exact live

/-- The fields of an item read back what was given for them, whatever the order of constant and
mutable fields: an item of the start what the literals of its row denote, an item that is added or
put in the place of another what the expressions for its fields evaluate to before. Adding and
replacing an item changes nothing else that can be read.
-/
theorem Domain.shows_given {source : List Char} {domain : Domain} {problem : Problem}
    {schema : Schema} (read : ofText source = .ok domain)
    (laid : Schema.ofProblem domain problem = .ok schema) {collection : Nat} {decl : ItemsDecl}
    (declared : domain.items[collection]? = some decl)
    : (∀ (position : Nat) (row : StartValue) (bindings : Bindings),
        (StartEntry.rows problem.initial (domain.vocabulary.entityName decl.entity))[position]?
            = some row
          → Store.Shows domain.vocabulary schema ⟨schema.initial, bindings⟩ position
              CollectionLayout.Denotes decl.fields row.literals)
      ∧ (∀ scope line entity exprs limit before after,
          Update.ofLine ⟨domain.vocabulary, scope⟩ line = .ok (.insert entity collection exprs)
          → (Update.insert entity collection exprs).run schema limit before = .ok () after
          → ∃ items, before.state.collections[collection]? = some items
            ∧ Store.Shows domain.vocabulary schema after items.nextId (before.Gives schema)
                decl.fields exprs
            ∧ Store.ReadsAlike domain.vocabulary schema decl.fields items.nextId before after)
      ∧ ∀ scope line entity id exprs limit before after,
          Update.ofLine ⟨domain.vocabulary, scope⟩ line
            = .ok (.replace entity collection id exprs)
          → (Update.replace entity collection id exprs).run schema limit before = .ok () after
          → ∃ index, id.evalInt schema before = .ok index
            ∧ Store.Shows domain.vocabulary schema after index (before.Gives schema) decl.fields
                exprs
            ∧ Store.ReadsAlike domain.vocabulary schema decl.fields index before after := by
  have coherent := coherent_of_ofText read
  have known := Schema.layout_of_items coherent laid declared
  have counted : domain.vocabulary.fieldCount collection = decl.fields.length := by
    rw [Vocabulary.fieldCount, coherent.describes.fieldCounts, List.getElem?_map, declared]
    rfl
  refine ⟨fun position row bindings given => Schema.shows_initial read laid declared given bindings,
    ?_, ?_⟩
  · intro scope line entity exprs limit before after parsed ran
    obtain ⟨⟨_, complete, _⟩, _⟩ := Update.scopedLine_of_ofLine parsed
    obtain ⟨item, made, allowed, rfl⟩ :=
      (Update.insert_fromStart schema limit before entity collection exprs).post_of_ok rfl ran
    have stored := List.getElem?_eq_getElem (State.lt_of_checkCollection allowed)
    have filled := Store.filled_of_newItem known (complete.trans counted) made
    exact ⟨_, stored, Store.shows_addItem read declared filled stored schema⟩
  · intro scope line entity id exprs limit before after parsed ran
    obtain ⟨⟨_, _, complete, _⟩, _⟩ := Update.scopedLine_of_ofLine parsed
    obtain ⟨index, item, evaluated, made, allowed, rfl⟩ :=
      (Update.replace_fromStart schema limit before entity collection id exprs).post_of_ok rfl ran
    have filled := Store.filled_of_newItem known (complete.trans counted) made
    have used := State.isSome_item?_of_checkItem allowed
    exact ⟨index, evaluated, Store.shows_replace read declared filled used schema⟩

/-- A domain with items whose mutable and constant fields alternate. -/
def yardText : List Char :=
  ["Start Domain:", "Entities:", "Ship, Parcel", "End Entities", "Variables:",
    "items Parcel var stops INT const weight INT var closed BOOL const zone INT",
    "End Variables", "End Domain"]
    |>.flatMap fun line => line.toList ++ ['\n']

/-- Two parcels in the yard. -/
def yardProblem : Problem :=
  ⟨[⟨"Parcel", [⟨none, .tuple [.int 3, .int 5, .bool true, .int 2], 1⟩,
    ⟨none, .tuple [.int 4, .int 6, .bool false, .int 1], 2⟩], 1⟩], []⟩

def parcelFields : List FieldDecl :=
  [⟨"stops", .int, false, 0⟩, ⟨"weight", .int, true, 0⟩, ⟨"closed", .bool, false, 1⟩,
    ⟨"zone", .int, true, 1⟩]

/-- The names that the text of the yard declares. -/
def yardVocabulary : Vocabulary where
  entities := [⟨"Ship", 0, none, none, 3⟩, ⟨"Parcel", 1, none, some 0, 3⟩]
  indices := [("Ship", 0), ("Parcel", 1)]
  collections := [1]
  fieldCounts := [4]
  names := parcelFields.map (·.named 0)

/-- The layout of the yard. -/
def yardSchema : Schema where
  entities := [⟨"Ship", none, .positional 0⟩, ⟨"Parcel", none, .dynamic 0⟩]
  constants := []
  mutables := []
  collections := [⟨"Parcel", 1, parcelFields⟩]
  names := parcelFields.map fun field => (field.name, (field.named 0).place)
  initial :=
    ⟨[], [.numbered [⟨[.int 5, .int 2], [.int 3, .bool true]⟩,
      ⟨[.int 6, .int 1], [.int 4, .bool false]⟩]]⟩
  batches := []

/-- The fields of a parcel that are read from the second one, two of them exchanged. -/
def nextParcel : List Expr :=
  [.read (.field 0 1 true) "zone" (.int 1), .int 7, .read (.field 0 1 false) "closed" (.int 1),
    .read (.field 0 0 false) "stops" (.int 1)]

set_option maxRecDepth 1024 in
/-- In the yard the second parcel reads its row, and a parcel made of its fields reads what these
were before, also where it takes the place of the second.
-/
theorem Domain.shows_given_at_yard
    : ∃ domain schema added replaced, ofText yardText = .ok domain
        ∧ Schema.ofProblem domain yardProblem = .ok schema
        ∧ domain.items[0]? = some ⟨1, 0, parcelFields, 6⟩
        ∧ Store.Shows domain.vocabulary schema ⟨schema.initial, .empty⟩ 1
            CollectionLayout.Denotes parcelFields [.int 4, .int 6, .bool false, .int 1]
        ∧ (Update.insert 1 0 nextParcel).run schema 0 ⟨schema.initial, .empty⟩ = .ok () added
        ∧ Store.Shows domain.vocabulary schema added 2
            (Store.Gives schema ⟨schema.initial, .empty⟩) parcelFields nextParcel
        ∧ Store.ReadsAlike domain.vocabulary schema parcelFields 2 ⟨schema.initial, .empty⟩ added
        ∧ (Update.replace 1 0 (.int 1) nextParcel).run schema 0 ⟨schema.initial, .empty⟩
          = .ok () replaced
        ∧ Store.Shows domain.vocabulary schema replaced 1
            (Store.Gives schema ⟨schema.initial, .empty⟩) parcelFields nextParcel
        ∧ Store.ReadsAlike domain.vocabulary schema parcelFields 1 ⟨schema.initial, .empty⟩
            replaced := by
  have shape
      : (load? yardText yardProblem).map
          (fun loaded => (loaded.1.vocabulary, loaded.1.items, loaded.2))
        = some (yardVocabulary, [⟨1, 0, parcelFields, 6⟩], yardSchema) := by
    decide +kernel
  obtain ⟨⟨domain, schema⟩, loaded, shape⟩ := Option.map_eq_some_iff.mp shape
  obtain ⟨read, laid⟩ := accepted_of_load? loaded
  obtain ⟨vocabulary, same⟩ := Prod.mk.inj shape
  obtain ⟨items, same⟩ := Prod.mk.inj same
  obtain rfl : schema = yardSchema := same
  replace vocabulary : domain.vocabulary = yardVocabulary := vocabulary
  replace items : domain.items[0]? = some ⟨1, 0, parcelFields, 6⟩ :=
    congrArg (fun items : List ItemsDecl => items[0]?) items
  have add
      : Update.ofLine ⟨yardVocabulary, .empty⟩
          ⟨"Parcel add: (zone (1), 7, closed (1), stops (1))".toList, 1, 1⟩
        = .ok (.insert 1 0 nextParcel) := by
    cbv
  have substitute
      : Update.ofLine ⟨yardVocabulary, .empty⟩
          ⟨"Parcel replace: 1 (zone (1), 7, closed (1), stops (1))".toList, 1, 1⟩
        = .ok (.replace 1 0 (.int 1) nextParcel) := by
    cbv
  have inserted
      : (Update.insert 1 0 nextParcel).run yardSchema 0 ⟨yardSchema.initial, .empty⟩
        = .ok () ⟨yardSchema.initial.addItem
            ⟨0, ⟨[.int 7, .int 4], [.int 1, .bool false]⟩⟩, .empty⟩ :=
    rfl
  have replaced
      : (Update.replace 1 0 (.int 1) nextParcel).run yardSchema 0 ⟨yardSchema.initial, .empty⟩
        = .ok () ⟨yardSchema.initial.modifyCollection 0
            (·.replace 1 ⟨[.int 7, .int 4], [.int 1, .bool false]⟩), .empty⟩ :=
    rfl
  rw [← vocabulary] at add substitute
  obtain ⟨initial, inserts, replaces⟩ := shows_given read laid items
  have row := initial 1 ⟨none, .tuple [.int 4, .int 6, .bool false, .int 1], 2⟩ .empty
    (by rw [vocabulary]; rfl)
  obtain ⟨before, stored, shown, alike⟩ := inserts _ _ _ _ 0 _ _ add inserted
  obtain rfl := Option.some.inj stored
  obtain ⟨index, evaluated, shownAgain, others⟩ := replaces _ _ _ _ _ 0 _ _ substitute replaced
  obtain rfl : 1 = index := Except.ok.inj evaluated
  exact ⟨domain, yardSchema, _, _, read, laid, items, row, inserted, shown, alike, replaced,
    shownAgain, others⟩

end Dispatch
