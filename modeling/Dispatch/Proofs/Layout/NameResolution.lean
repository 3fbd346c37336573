import Dispatch.Proofs.Declarations.ListedNames
import Dispatch.Proofs.Layout.DeclaredStorage
import Dispatch.Proofs.Layout.InitialItems

/-!
Names resolve in a schema as they did while the domain was read. The reader numbers variables and
fields as it meets them, the schema by their positions in its lists of constants, mutable variables
and collections. The two agree because positions among the declarations of a constness are what the
reader counted; and as no two names were given one position, no two resolve to one place.
-/

namespace Dispatch

-----------------------------------------------------------------------------------------
-- Positions of variables
-----------------------------------------------------------------------------------------

namespace VariableDecl

variable {declarations : List VariableDecl}

/-- At the slot of a variable, among those of its constness, stands a variable of its name and kind,
since variables are numbered as fields are.
-/
theorem getElem?_slot
    (numbered : FieldDecl.Numbered 0 0 (declarations.map (·.asField))) {decl : VariableDecl}
    (member : decl ∈ declarations)
    : ∃ other, (declarations.filter (·.constant = decl.constant))[decl.slot]? = some other
        ∧ other.asField = decl.asField := by
  have found := numbered.getElem?_slot (List.mem_map_of_mem member)
  rw [List.filter_map, List.getElem?_map] at found
  exact Option.map_eq_some_iff.mp found

/-- The variable at a position among those of its constness has that slot. -/
theorem slot_of_getElem? (numbered : FieldDecl.Numbered 0 0 (declarations.map (·.asField)))
    {constant : Bool} {position : Nat} {decl : VariableDecl}
    (found : (declarations.filter (·.constant = constant))[position]? = some decl)
    : decl ∈ declarations ∧ decl.constant = constant ∧ decl.slot = position := by
  obtain ⟨member, constness⟩ := List.mem_filter.mp (List.mem_of_getElem? found)
  refine ⟨member, of_decide_eq_true constness, ?_⟩
  have asField
      : ((declarations.map (·.asField)).filter (·.constant = constant))[position]?
        = some decl.asField := by
    rw [List.filter_map, List.getElem?_map]
    exact congrArg (Option.map _) found
  have matched := List.find?_some (numbered.find?_eq asField)
  simp only [ite_self, Nat.zero_add, Bool.and_eq_true, decide_eq_true_eq] at matched
  exact matched.2

end VariableDecl

-----------------------------------------------------------------------------------------
-- The names of a schema
-----------------------------------------------------------------------------------------

namespace Schema

/-- Variables are named at their positions, by induction on the tables. -/
theorem mem_variableNames {place : Nat → Place} {slot : Nat} {tables : List VariableTable}
    {name : String} {found : Place}
    : (name, found) ∈ variableNames place slot tables
      ↔ ∃ (position : Nat) (decl : VariableDecl),
          (tables.map (·.layout.decl))[position]? = some decl ∧ decl.name = name
            ∧ found = place (slot + position) := by
  induction tables generalizing slot with
  | nil => simp [variableNames]
  | cons table rest ih =>
      rw [variableNames, List.mem_cons, ih, Prod.mk.injEq]
      constructor
      · rintro (⟨rfl, rfl⟩ | ⟨position, decl, declared, named, rfl⟩)
        · exact ⟨0, _, rfl, rfl, rfl⟩
        · exact ⟨position + 1, decl, declared, named, by rw [Nat.add_assoc, Nat.add_comm 1]⟩
      · rintro ⟨position, decl, declared, named, rfl⟩
        cases position with
        | zero =>
            obtain rfl := Option.some.inj declared
            exact .inl ⟨named.symm, rfl⟩
        | succ position =>
            exact .inr ⟨position, decl, declared, named, by rw [Nat.add_assoc, Nat.add_comm 1]⟩

/-- Fields are named with the position of their collection, by induction on the collections. -/
theorem mem_fieldNames {collection : Nat} {layouts : List CollectionLayout} {name : String}
    {found : Place}
    : (name, found) ∈ fieldNames collection layouts
      ↔ ∃ (position : Nat) (fields : List FieldDecl) (field : FieldDecl),
          (layouts.map (·.fields))[position]? = some fields ∧ field ∈ fields ∧ field.name = name
            ∧ found = .field (collection + position) field.slot field.constant := by
  induction layouts generalizing collection with
  | nil => simp [fieldNames]
  | cons layout rest ih =>
      rw [fieldNames, List.mem_append, ih]
      constructor
      · rintro (first | ⟨position, fields, field, known, inside, named, rfl⟩)
        · obtain ⟨field, inside, same⟩ := List.mem_map.mp first
          obtain ⟨rfl, rfl⟩ := Prod.mk.inj same
          exact ⟨0, _, field, rfl, inside, rfl, rfl⟩
        · exact ⟨position + 1, fields, field, known, inside, named, by
            rw [Nat.add_assoc, Nat.add_comm 1]⟩
      · rintro ⟨position, fields, field, known, inside, named, rfl⟩
        cases position with
        | zero =>
            obtain rfl := Option.some.inj known
            exact .inl (List.mem_map.mpr ⟨field, inside, by rw [named]; rfl⟩)
        | succ position =>
            exact .inr ⟨position, fields, field, known, inside, named, by
              rw [Nat.add_assoc, Nat.add_comm 1]⟩

/-- The lists of a schema follow those of the domain, and its names are theirs. -/
structure Follows (domain : Domain) (schema : Schema) : Prop where
  constants : schema.constants.map (·.layout.decl) = domain.declarations.filter (·.constant = true)
  mutables : schema.mutables.map (·.decl) = domain.declarations.filter (·.constant = false)
  fields : schema.collections.map (·.fields) = domain.items.map (·.fields)
  names
    : ∃ tables, schema.mutables = tables.map (·.layout)
        ∧ schema.names = variableNames .const 0 schema.constants ++ variableNames .var 0 tables
            ++ fieldNames 0 schema.collections
  storage
    : ∀ entity collection, schema.storage? entity = some (.dynamic collection)
        ↔ domain.vocabulary.collection? entity = some collection

/-- Tables that follow declarations follow them too when both are reduced to one constness. -/
theorem filter_of_follow {tables : List VariableTable} {decls : List VariableDecl}
    (follow : tables.map (·.layout.decl) = decls) (constness : VariableDecl → Bool)
    : (tables.filter (constness ·.layout.decl)).map (·.layout.decl) = decls.filter constness := by
  rw [← follow, List.filter_map]
  rfl

/-- The lists of the schema of a problem are those of its coherent domain: positions in them are
what the reader counted, and an entity type is stored where it keeps its collection.
-/
theorem follows_of_ofProblem {domain : Domain} {problem : Problem} {schema : Schema}
    (coherent : domain.Coherent) (laid : ofProblem domain problem = .ok schema)
    : schema.Follows domain := by
  obtain ⟨_, _, laid⟩ := bind_eq_ok_iff.mp laid
  obtain ⟨entities, entitiesLaid, laid⟩ := bind_eq_ok_iff.mp laid
  obtain ⟨tables, tablesLaid, laid⟩ := bind_eq_ok_iff.mp laid
  obtain ⟨_, _, laid⟩ := bind_eq_ok_iff.mp laid
  obtain ⟨items, _, laid⟩ := bind_eq_ok_iff.mp laid
  obtain ⟨batches, _, done⟩ := bind_eq_ok_iff.mp laid
  obtain rfl := Except.ok.inj done
  have follow := (VariableTable.of_ofDecls tablesLaid).1
  have unsorted := collectionLayouts_eq_map entities coherent.describes.numbers
  have constants
      : (tables.filter (·.layout.decl.constant)).map (·.layout.decl)
        = domain.declarations.filter (·.constant = true) := by
    simpa using filter_of_follow follow (·.constant)
  have mutables
      : (tables.filter (!·.layout.decl.constant)).map (·.layout.decl)
        = domain.declarations.filter (·.constant = false) := by
    simpa using filter_of_follow follow (!·.constant)
  refine ⟨constants, ?_, ?_, ⟨_, rfl, rfl⟩, ?_⟩
  · rw [← mutables, List.map_map]
    rfl
  · rw [unsorted]
    simp
  · intro entity collection
    constructor
    · intro stored
      obtain ⟨layout, found, storage⟩ := Option.map_eq_some_iff.mp stored
      exact (EntityLayout.storage_of_ofDecls entitiesLaid found collection).mp storage
    · intro dynamic
      obtain ⟨decl, declared, _⟩ := Option.bind_eq_some_iff.mp dynamic
      have inside : entity < entities.length := by
        rw [← List.length_map (·.name), EntityLayout.names_of_ofDecls entitiesLaid,
          List.length_map]
        exact (List.getElem?_eq_some_iff.mp declared).1
      have found := List.getElem?_eq_getElem inside
      refine Option.map_eq_some_iff.mpr ⟨_, found, ?_⟩
      exact (EntityLayout.storage_of_ofDecls entitiesLaid found collection).mpr dynamic

variable {domain : Domain} {schema : Schema}

/-- A schema has the names of the vocabulary, each for the same place.

Both number variables by their positions among those of their constness, and collections by their
positions; the schema counts anew, in lists of its own, what the reader counted line by line.
-/
theorem Follows.mem_names (follows : schema.Follows domain)
    (lists : domain.vocabulary.Lists domain.items domain.declarations) {name : String}
    {place : Place}
    : (name, place) ∈ schema.names
      ↔ ∃ decl ∈ domain.vocabulary.names, decl.name = name ∧ decl.place = place := by
  obtain ⟨tables, layouts, names⟩ := follows.names
  have mutables : tables.map (·.layout.decl) = domain.declarations.filter (·.constant = false) := by
    rw [← follows.mutables, layouts, List.map_map]
    rfl
  rw [names, lists.names, List.mem_append, List.mem_append, mem_variableNames, mem_variableNames,
    mem_fieldNames, follows.constants, mutables, follows.fields]
  simp only [Nat.zero_add]
  constructor
  · rintro ((⟨position, decl, found, rfl, rfl⟩ | ⟨position, decl, found, rfl, rfl⟩)
      | ⟨position, fields, field, known, inside, rfl, rfl⟩)
    · obtain ⟨member, constant, slot⟩ := VariableDecl.slot_of_getElem? lists.numbered found
      refine ⟨decl.named, List.mem_append_right _ (List.mem_map_of_mem member), rfl, ?_⟩
      simp [VariableDecl.named, VariableDecl.place, constant, slot]
    · obtain ⟨member, constant, slot⟩ := VariableDecl.slot_of_getElem? lists.numbered found
      refine ⟨decl.named, List.mem_append_right _ (List.mem_map_of_mem member), rfl, ?_⟩
      simp [VariableDecl.named, VariableDecl.place, constant, slot]
    · rw [List.getElem?_map] at known
      obtain ⟨decl, declared, rfl⟩ := Option.map_eq_some_iff.mp known
      refine ⟨field.named position, List.mem_append_left _ ?_, rfl, rfl⟩
      exact ItemsDecl.mem_names.mpr
        ⟨position, decl, field, declared, inside, by rw [Nat.zero_add]⟩
  · rintro ⟨one, member, rfl, rfl⟩
    rcases List.mem_append.mp member with item | other
    · obtain ⟨position, decl, field, declared, inside, rfl⟩ := ItemsDecl.mem_names.mp item
      refine .inr ⟨position, decl.fields, field, ?_, inside, rfl, by rw [Nat.zero_add]; rfl⟩
      rw [List.getElem?_map, declared, Option.map_some]
    · obtain ⟨decl, inside, rfl⟩ := List.mem_map.mp other
      obtain ⟨other, found, same⟩ := VariableDecl.getElem?_slot lists.numbered inside
      have named : other.name = decl.name := congrArg FieldDecl.name same
      cases constant : decl.constant with
      | true =>
          rw [constant] at found
          refine .inl (.inl ⟨decl.slot, other, found, named, ?_⟩)
          simp [VariableDecl.named, VariableDecl.place, constant]
      | false =>
          rw [constant] at found
          refine .inl (.inr ⟨decl.slot, other, found, named, ?_⟩)
          simp [VariableDecl.named, VariableDecl.place, constant]

/-- The place of a name is the same in the schema and in the vocabulary, as names are apart and so
lookups do not depend on the order in which the names are listed.
-/
theorem Follows.place?_eq (follows : schema.Follows domain)
    (lists : domain.vocabulary.Lists domain.items domain.declarations)
    (apart : (domain.vocabulary.names.map (·.name)).Nodup) (name : String)
    : schema.place? name = domain.vocabulary.place? name := by
  apply Option.ext
  intro place
  constructor
  · intro resolved
    obtain ⟨⟨named, _⟩, found, rfl⟩ := Option.map_eq_some_iff.mp resolved
    have matched : named = name := by simpa using List.find?_some found
    obtain ⟨decl, member, sameName, samePlace⟩ :=
      (follows.mem_names lists).mp (List.mem_of_find?_eq_some found)
    exact Option.map_eq_some_iff.mpr
      ⟨decl, (Vocabulary.name?_eq_some_iff apart).mpr ⟨member, sameName.trans matched⟩, samePlace⟩
  · intro resolved
    obtain ⟨decl, found, rfl⟩ := Option.map_eq_some_iff.mp resolved
    obtain ⟨member, rfl⟩ := (Vocabulary.name?_eq_some_iff apart).mp found
    have listed := (follows.mem_names lists).mpr ⟨decl, member, rfl, rfl⟩
    obtain ⟨⟨named, place⟩, first⟩ := Option.isSome_iff_exists.mp
      (List.find?_isSome (p := (·.1 = decl.name)).mpr ⟨_, listed, by simp⟩)
    obtain ⟨other, otherMember, sameName, samePlace⟩ :=
      (follows.mem_names lists).mp (List.mem_of_find?_eq_some first)
    have matched : named = decl.name := by simpa using List.find?_some first
    obtain rfl := List.inj_on_of_nodup_map apart otherMember member (sameName.trans matched)
    exact Option.map_eq_some_iff.mpr ⟨_, first, samePlace.symm⟩

/-- A schema stores values of the declared kind at the place of a name, by cases on whether it is
that of a field or of a variable.
-/
theorem Follows.kind?_eq (follows : schema.Follows domain)
    (lists : domain.vocabulary.Lists domain.items domain.declarations)
    (numbered : ∀ decl ∈ domain.items, FieldDecl.Numbered 0 0 decl.fields) {decl : NameDecl}
    (member : decl ∈ domain.vocabulary.names)
    : schema.kind? decl.place = some decl.kind := by
  rw [lists.names] at member
  rcases List.mem_append.mp member with item | other
  · obtain ⟨collection, items, field, declared, inside, rfl⟩ := ItemsDecl.mem_names.mp item
    have known : (schema.collections.map (·.fields))[collection]? = some items.fields := by
      rw [follows.fields, List.getElem?_map, declared, Option.map_some]
    rw [List.getElem?_map] at known
    obtain ⟨layout, found, fields⟩ := Option.map_eq_some_iff.mp known
    have slot := (numbered items (List.mem_of_getElem? declared)).find?_eq
      ((numbered items (List.mem_of_getElem? declared)).getElem?_slot inside)
    simp only [ite_self, Nat.zero_add] at slot
    simp only [FieldDecl.named, kind?, Nat.zero_add, found, fields, slot, Option.bind_eq_bind,
      Option.bind_some, pure]
  · obtain ⟨one, inside, rfl⟩ := List.mem_map.mp other
    obtain ⟨other, found, same⟩ := VariableDecl.getElem?_slot lists.numbered inside
    have kinds : other.kind = one.kind := congrArg FieldDecl.kind same
    cases constant : one.constant with
    | true =>
        rw [constant, ← follows.constants, List.getElem?_map] at found
        obtain ⟨table, stored, rfl⟩ := Option.map_eq_some_iff.mp found
        simp [VariableDecl.named, VariableDecl.place, constant, kind?, stored, kinds]
    | false =>
        rw [constant, ← follows.mutables, List.getElem?_map] at found
        obtain ⟨layout, stored, rfl⟩ := Option.map_eq_some_iff.mp found
        simp [VariableDecl.named, VariableDecl.place, constant, kind?, stored, kinds]

end Schema

-----------------------------------------------------------------------------------------
-- Resolution
-----------------------------------------------------------------------------------------

/-- The place is one of the storage that the schema lays out. -/
def Place.Inside (schema : Schema) : Place → Prop
  | .const slot => slot < schema.constants.length
  | .var slot => slot < schema.mutables.length
  | .field collection slot constant =>
      ∃ layout, schema.collections[collection]? = some layout
        ∧ slot < layout.fields.countP (·.constant = constant)

/-- A declared place lies inside the storage of the schema, by cases on the place. -/
theorem Loaded.inside_of_declaredBy {domain : Domain} {schema : Schema}
    (loaded : Loaded domain schema) {place : Place}
    (declared : place.DeclaredBy domain.items domain.declarations)
    : place.Inside schema := by
  cases place with
  | const slot =>
      rw [Place.Inside, loaded.laysOut.constants]
      exact declared
  | var slot =>
      rw [Place.Inside, loaded.laysOut.mutables]
      exact declared
  | field collection slot constant => exact loaded.slot_of_field declared

/-- The names of a vocabulary resolve in a schema to the same places, which lie in its storage and
hold values of the declared kinds, each for one name; and the entity types stored as items are those
with a collection, which has all its fields.
-/
structure Schema.Resolves (vocabulary : Vocabulary) (schema : Schema) : Prop where
  places : ∀ name, schema.place? name = vocabulary.place? name
  kinds
    : ∀ name place, schema.place? name = some place
        → ∃ kind, schema.kind? place = some kind ∧ vocabulary.kind? name = some kind
  apart
    : ∀ one other place, schema.place? one = some place → schema.place? other = some place
        → one = other
  inside : ∀ name place, schema.place? name = some place → place.Inside schema
  dynamic
    : ∀ entity collection, schema.storage? entity = some (.dynamic collection)
        ↔ vocabulary.collection? entity = some collection
  fieldCounts
    : ∀ entity collection, schema.storage? entity = some (.dynamic collection)
        → ∃ layout, schema.collections[collection]? = some layout
          ∧ layout.fields.length = vocabulary.fieldCount collection

/-- In the schema of every accepted problem, the names of its domain resolve as they did while the
domain was read.

So the slots that the reader has put into expressions and effects are those at which the schema has
put the values, and what was checked against a kind is stored with that kind.
-/
theorem Schema.resolves_of_accepted {source : List Char} {domain : Domain} {problem : Problem}
    {schema : Schema} (read : Domain.ofText source = .ok domain)
    (laid : Schema.ofProblem domain problem = .ok schema)
    : schema.Resolves domain.vocabulary := by
  have loaded := loaded_of_accepted read laid
  have lists := Domain.lists_of_ofText read
  have apart := Domain.names_nodup_of_ofText read
  have follows := Schema.follows_of_ofProblem loaded.coherent laid
  have numbered := loaded.coherent.describes.fields
  have places := follows.place?_eq lists apart
  have declared {name : String} {place : Place} (resolved : schema.place? name = some place)
      : ∃ decl ∈ domain.vocabulary.names, domain.vocabulary.name? name = some decl
          ∧ decl.name = name ∧ decl.place = place := by
    rw [places] at resolved
    obtain ⟨decl, found, rfl⟩ := Option.map_eq_some_iff.mp resolved
    obtain ⟨member, named⟩ := (Vocabulary.name?_eq_some_iff apart).mp found
    exact ⟨decl, member, found, named, rfl⟩
  refine ⟨places, ?_, ?_, ?_, follows.storage, ?_⟩
  · intro name place resolved
    obtain ⟨decl, member, found, _, rfl⟩ := declared resolved
    refine ⟨decl.kind, follows.kind?_eq lists numbered member, ?_⟩
    rw [Vocabulary.kind?, found, Option.map_some]
  · intro one other place oneResolved otherResolved
    obtain ⟨decl, member, _, rfl, rfl⟩ := declared oneResolved
    obtain ⟨decl', member', _, rfl, same⟩ := declared otherResolved
    exact lists.eq_of_place numbered member member' same.symm
  · intro name place resolved
    rw [places] at resolved
    exact loaded.inside_of_declaredBy (loaded.declaredBy_of_place? resolved)
  · intro entity collection stored
    obtain ⟨layout, known⟩ :=
      loaded.layout_of_collection? ((follows.storage entity collection).mp stored)
    exact ⟨layout, known, (loaded.fieldCount_eq known).symm⟩

/-- A domain with items of two fields, a constant and a mutable variable, and a problem of it. -/
def quayText : List Char :=
  ["Start Domain:", "Entities:", "Ship, Crate", "End Entities", "Variables:", "var load INT - Ship",
    "const limit INT", "items Crate const size INT var full BOOL", "End Variables", "End Domain"]
    |>.flatMap fun line => line.toList ++ ['\n']

def quayProblem : Problem := ⟨[⟨"Ship", [⟨none, .int 2, 1⟩], 1⟩], []⟩

/-- On the quay every name resolves, the variables and the fields to slots of their own, and crates
are stored as items.
-/
theorem Schema.resolves_at_quay
    : ∃ domain schema, Domain.ofText quayText = .ok domain
        ∧ Schema.ofProblem domain quayProblem = .ok schema
        ∧ ["load", "limit", "size", "full", "none"].map schema.place?
          = [some (.var 0), some (.const 0), some (.field 0 0 true), some (.field 0 0 false), none]
        ∧ schema.storage? 1 = some (.dynamic 0) ∧ schema.Resolves domain.vocabulary := by
  have shape
      : (load? quayText quayProblem).map (fun loaded =>
          (["load", "limit", "size", "full", "none"].map loaded.2.place?, loaded.2.storage? 1))
        = some ([some (.var 0), some (.const 0), some (.field 0 0 true), some (.field 0 0 false),
            none], some (.dynamic 0)) := by
    decide +kernel
  obtain ⟨⟨domain, schema⟩, loaded, shape⟩ := Option.map_eq_some_iff.mp shape
  obtain ⟨read, laid⟩ := accepted_of_load? loaded
  obtain ⟨places, dynamic⟩ := Prod.mk.inj shape
  exact ⟨domain, schema, read, laid, places, dynamic, Schema.resolves_of_accepted read laid⟩

end Dispatch
