import Dispatch.Domain.Parser
import Dispatch.Proofs.Declarations.DomainCoherence

/-!
The parts of a vocabulary agree with each other whatever is declared. An entity type has the index
at which it stands, its name leads to that index, and the collection that it keeps is the one that
belongs to it; so no two entity types share a name, and no two share a collection. A declaration
that would take a name or an entity type twice is refused.
-/

namespace Dispatch

/-- A list with one more entry has at an index what it had there, or the new entry at the index
behind the others.
-/
theorem getElem?_concat_eq_some_iff {α : Type} {entries : List α} {last wanted : α} {index : Nat}
    : (entries ++ [last])[index]? = some wanted
      ↔ entries[index]? = some wanted ∨ last = wanted ∧ entries.length = index := by
  by_cases before : index < entries.length
  · have : entries.length ≠ index := by omega
    simp [List.getElem?_append_left before, this]
  · have outside : entries[index]? = none := List.getElem?_eq_none (by omega)
    rw [List.getElem?_append_right (by omega), List.getElem?_singleton, outside]
    simp only [Option.ite_none_right_eq_some, reduceCtorEq, false_or, Option.some.injEq]
    rw [and_comm]
    refine and_congr_right fun _ => ?_
    omega

namespace Vocabulary

-----------------------------------------------------------------------------------------
-- Declarations
-----------------------------------------------------------------------------------------

/-- Declarations lead from one vocabulary to another. -/
inductive Grows (start : Vocabulary) : Vocabulary → Prop
  | refl : Grows start start
  | entity {reached next : Vocabulary} {name : String} {role : Option String} {line : Nat}
    (grown : Grows start reached) (added : reached.addEntity? name role line = some next)
    : Grows start next
  | collection {reached next : Vocabulary} {entity fieldCount : Nat} (grown : Grows start reached)
    (added : reached.addCollection? entity fieldCount = some next)
    : Grows start next
  | name {reached next : Vocabulary} {name : String} {place : Place} {kind : Kind}
    (grown : Grows start reached) (added : reached.addName? name place kind = some next)
    : Grows start next

/-- Growth upon growth is growth, by induction on the second one. -/
theorem Grows.trans {start middle final : Vocabulary} (first : start.Grows middle)
    (last : middle.Grows final)
    : start.Grows final := by
  induction last with
  | refl => exact first
  | entity _ added ih => exact .entity ih added
  | collection _ added ih => exact .collection ih added
  | name _ added ih => exact .name ih added

/-- The parts of the vocabulary agree: indices with positions, names with indices, and the
collections of entity types with the entity types of collections.
-/
structure Linked (vocabulary : Vocabulary) : Prop where
  /-- An entity type has the index at which it stands. -/
  positions
    : ∀ (index : Nat) (decl : EntityDecl),
        vocabulary.entities[index]? = some decl → decl.index = index
  /-- A name leads to the entity type that has it. -/
  named
    : ∀ name index, vocabulary.entity? name = some index
        ↔ vocabulary.entities[index]?.map (·.name) = some name
  /-- An entity type keeps the collection that belongs to it. -/
  owned
    : ∀ entity collection, vocabulary.collection? entity = some collection
        ↔ vocabulary.collections[collection]? = some entity
  counted : vocabulary.fieldCounts.length = vocabulary.collections.length

/-- The parts of the empty vocabulary agree, as there is nothing in any of them. -/
theorem linked_empty : empty.Linked :=
  ⟨nofun, fun _ _ => by simp [entity?, empty], fun _ _ => by simp [collection?, empty], rfl⟩

variable {vocabulary extended : Vocabulary}

/-- A name that is looked up behind a new entity type is an old one, or that of the new one. An old
one comes first in the index, so that it would win; but a name that is taken is refused.
-/
theorem entity?_of_addEntity? {name : String} {role : Option String} {line : Nat}
    (added : vocabulary.addEntity? name role line = some extended) (wanted : String)
    : extended.entity? wanted
      = (vocabulary.entity? wanted).or
          (if name = wanted then some vocabulary.entities.length else none) := by
  obtain ⟨_, rfl⟩ := addEntity?_eq_some_iff.mp added
  rw [entity?, List.find?_append, List.find?_singleton, Option.map_or, entity?]
  by_cases same : name = wanted <;> simp [same]

/-- A new entity type has no collection, and the others keep theirs, as it stands behind them. -/
theorem collection?_of_addEntity? {name : String} {role : Option String} {line : Nat}
    (added : vocabulary.addEntity? name role line = some extended) (entity : Nat)
    : extended.collection? entity = vocabulary.collection? entity := by
  obtain ⟨_, rfl⟩ := addEntity?_eq_some_iff.mp added
  rw [collection?, collection?]
  by_cases inside : entity < vocabulary.entities.length
  · rw [List.getElem?_append_left inside]
  · rw [List.getElem?_append_right (by omega), List.getElem?_singleton,
      List.getElem?_eq_none (by omega)]
    split <;> rfl

/-- An entity type that becomes dynamic has the next collection, and the others keep theirs, as one
entry alone is written to.
-/
theorem collection?_of_addCollection? {owner fieldCount : Nat}
    (added : vocabulary.addCollection? owner fieldCount = some extended) (entity : Nat)
    : extended.collection? entity
      = if owner = entity then some vocabulary.collections.length
        else vocabulary.collection? entity := by
  obtain ⟨decl, found, _, rfl⟩ := addCollection?_eq_some_iff.mp added
  rw [collection?, List.getElem?_set]
  split
  · rename_i same
    subst same
    rw [if_pos (List.getElem?_eq_some_iff.mp found).1]
    rfl
  · rfl

/-- Entity types keep their names and their indices when one of them becomes dynamic, and every
other part that does not depend on the collection.
-/
theorem map_getElem?_of_addCollection? {α : Type} {owner fieldCount : Nat} (part : EntityDecl → α)
    (alike : ∀ decl collection, part { decl with collection } = part decl)
    (added : vocabulary.addCollection? owner fieldCount = some extended) (index : Nat)
    : extended.entities[index]?.map part = vocabulary.entities[index]?.map part := by
  obtain ⟨decl, found, _, rfl⟩ := addCollection?_eq_some_iff.mp added
  rw [List.getElem?_set]
  split
  · rename_i same
    subst same
    rw [if_pos (List.getElem?_eq_some_iff.mp found).1, found]
    exact congrArg some (alike decl _)
  · rfl

/-- No entity type gets another name when one of them becomes dynamic, so the names stand where they
stood.
-/
theorem map_name_of_addCollection? {owner fieldCount : Nat}
    (added : vocabulary.addCollection? owner fieldCount = some extended)
    : extended.entities.map (·.name) = vocabulary.entities.map (·.name) := by
  refine List.ext_getElem? fun index => ?_
  rw [List.getElem?_map, List.getElem?_map]
  exact map_getElem?_of_addCollection? _ (fun _ _ => rfl) added index

/-- An entity type stands where it stood before one of them became dynamic, be it the one or not. -/
theorem exists_entity_iff_of_addCollection? {owner fieldCount : Nat}
    (added : vocabulary.addCollection? owner fieldCount = some extended) (place index : Nat)
    (name : String) (role : Option String) (line : Nat)
    : (∃ collection, extended.entities[place]? = some ⟨name, index, role, collection, line⟩)
      ↔ ∃ collection, vocabulary.entities[place]? = some ⟨name, index, role, collection, line⟩ := by
  have same (entities : List EntityDecl)
      : (∃ collection, entities[place]? = some ⟨name, index, role, collection, line⟩)
        ↔ entities[place]?.map ({ · with collection := none })
          = some ⟨name, index, role, none, line⟩ := by
    rw [Option.map_eq_some_iff]
    constructor
    · rintro ⟨collection, stands⟩
      exact ⟨_, stands, rfl⟩
    · rintro ⟨⟨_, _, _, collection, _⟩, stands, parts⟩
      cases parts
      exact ⟨collection, stands⟩
  rw [same, same, map_getElem?_of_addCollection? _ (fun _ _ => rfl) added]

/-- A collection can be declared for an entity type that is declared and has none. -/
theorem isSome_addCollection?_iff {owner fieldCount : Nat}
    : (vocabulary.addCollection? owner fieldCount).isSome
      ↔ owner < vocabulary.entities.length ∧ vocabulary.collection? owner = none := by
  rw [addCollection?, collection?]
  cases found : vocabulary.entities[owner]? with
  | none =>
      have outside := List.getElem?_eq_none_iff.mp found
      simp [Nat.not_lt.mpr outside]
  | some decl =>
      have inside := (List.getElem?_eq_some_iff.mp found).1
      cases decl.collection <;> simp [inside]

/-- A new entity type takes the next index and a name that led to none.

Name index and list grow together, so the index stays right only because nothing was behind the end
of the list before.
-/
theorem Linked.addEntity? {name : String} {role : Option String} {line : Nat}
    (linked : vocabulary.Linked) (added : vocabulary.addEntity? name role line = some extended)
    : extended.Linked := by
  have named := entity?_of_addEntity? added
  have owned := collection?_of_addEntity? added
  obtain ⟨fresh, rfl⟩ := addEntity?_eq_some_iff.mp added
  refine ⟨?_, ?_, ?_, linked.counted⟩
  · intro index decl stands
    rcases getElem?_concat_eq_some_iff.mp stands with old | ⟨rfl, position⟩
    · exact linked.positions index decl old
    · exact position
  · intro wanted index
    have stands
        : (vocabulary.entities
              ++ [⟨name, vocabulary.entities.length, role, none, line⟩])[index]?.map (·.name)
            = some wanted
          ↔ vocabulary.entities[index]?.map (·.name) = some wanted
            ∨ name = wanted ∧ vocabulary.entities.length = index := by
      rw [← List.getElem?_map, ← List.getElem?_map, List.map_append, List.map_singleton,
        getElem?_concat_eq_some_iff, List.length_map]
    rw [named, stands, ← linked.named, Option.or_eq_some_iff, Option.ite_none_right_eq_some,
      Option.some_inj]
    refine or_congr_right (and_iff_right_of_imp ?_)
    rintro ⟨rfl, _⟩
    exact fresh
  · intro entity collection
    rw [owned]
    exact linked.owned entity collection

/-- A new collection takes the next number, and an entity type that had none.

Three parts change at once, the entry of the entity type, the list of the collections and that of
the field counts. If the type had a collection already, the old number would point to a type that
has forgotten it.
-/
theorem Linked.addCollection? {owner fieldCount : Nat} (linked : vocabulary.Linked)
    (added : vocabulary.addCollection? owner fieldCount = some extended)
    : extended.Linked := by
  have collections := collection?_of_addCollection? added
  have names := map_getElem?_of_addCollection? (·.name) (fun _ _ => rfl) added
  have indices := map_getElem?_of_addCollection? (·.index) (fun _ _ => rfl) added
  obtain ⟨decl, found, free, rfl⟩ := addCollection?_eq_some_iff.mp added
  refine ⟨?_, ?_, ?_, ?_⟩
  · intro index other stands
    have same := indices index
    rw [stands] at same
    obtain ⟨old, stood, same⟩ := Option.map_eq_some_iff.mp same.symm
    exact same.symm.trans (linked.positions index old stood)
  · intro name index
    rw [names]
    exact linked.named name index
  · intro entity collection
    rw [collections, getElem?_concat_eq_some_iff, ← linked.owned]
    split
    · rename_i same
      subst same
      have none : vocabulary.collection? owner = none := by
        rw [collection?, found]
        exact free
      simp [none]
    · rename_i differs
      simp [differs]
  · rw [List.length_append, List.length_append, linked.counted]
    rfl

/-- A new name of storage touches none of the parts that have to agree. -/
theorem Linked.addName? {name : String} {place : Place} {kind : Kind}
    (linked : vocabulary.Linked) (added : vocabulary.addName? name place kind = some extended)
    : extended.Linked := by
  obtain ⟨_, rfl⟩ := addName?_eq_some_iff.mp added
  exact ⟨linked.positions, linked.named, linked.owned, linked.counted⟩

/-- Declarations keep the parts of a vocabulary in agreement, by induction on the declarations, each
of which keeps them so.
-/
theorem Grows.linked (grows : vocabulary.Grows extended) (linked : vocabulary.Linked)
    : extended.Linked := by
  induction grows with
  | refl => exact linked
  | entity _ added ih => exact ih.addEntity? added
  | collection _ added ih => exact ih.addCollection? added
  | name _ added ih => exact ih.addName? added

namespace Linked

variable (linked : vocabulary.Linked)

include linked

/-- An entity type has the index at which it stands, so looking it up by its name and by its index
comes to the same.
-/
theorem entity?_eq_some_iff {name : String} {index : Nat}
    : vocabulary.entity? name = some index
      ↔ ∃ decl, vocabulary.entities[index]? = some decl ∧ decl.name = name := by
  rw [linked.named, Option.map_eq_some_iff]

/-- The entity type to which a name leads is called by it. -/
theorem entityName_of_entity? {name : String} {index : Nat}
    (known : vocabulary.entity? name = some index)
    : vocabulary.entityName index = name := by
  rw [entityName, (linked.named name index).mp known]
  rfl

/-- No two entity types have one name, for it leads to one index. -/
theorem names_nodup : (vocabulary.entities.map (·.name)).Nodup := by
  refine List.pairwise_iff_getElem.mpr fun one other oneInside otherInside before same => ?_
  have first := (linked.named _ one).mpr
    (by rw [← List.getElem?_map, List.getElem?_eq_getElem oneInside])
  have second := (linked.named _ other).mpr
    (by rw [← List.getElem?_map, List.getElem?_eq_getElem otherInside])
  rw [same, second] at first
  have := Option.some.inj first
  omega

/-- Only one entity type has its items in a collection, the one that the list of the collections
gives.
-/
theorem collection?_inj {one other collection : Nat}
    (first : vocabulary.collection? one = some collection)
    (second : vocabulary.collection? other = some collection)
    : other = one := by
  rw [linked.owned] at first second
  rw [first] at second
  exact (Option.some.inj second).symm

/-- The entity types of the collections are apart, for each has one collection. -/
theorem collections_nodup : vocabulary.collections.Nodup := by
  refine List.pairwise_iff_getElem.mpr fun one other oneInside otherInside before same => ?_
  have first := (linked.owned _ one).mpr (List.getElem?_eq_getElem oneInside)
  have second := (linked.owned _ other).mpr (List.getElem?_eq_getElem otherInside)
  rw [same, second] at first
  have := Option.some.inj first
  omega

/-- What is declared as a collection belongs to a declared entity type. -/
theorem owner_inside {entity collection : Nat}
    (stands : vocabulary.collections[collection]? = some entity)
    : entity < vocabulary.entities.length := by
  have found := (linked.owned entity collection).mpr stands
  obtain ⟨decl, declared, _⟩ := Option.bind_eq_some_iff.mp found
  exact (List.getElem?_eq_some_iff.mp declared).1

end Linked

-----------------------------------------------------------------------------------------
-- Reading declarations
-----------------------------------------------------------------------------------------

/-- Reading entity types is a sequence of declarations, by induction on the pieces. -/
theorem grows_of_readEntities {pieces : List Line}
    (read : vocabulary.readEntities pieces = .ok extended)
    : vocabulary.Grows extended := by
  induction pieces generalizing vocabulary with
  | nil =>
      obtain rfl := Except.ok.inj read
      exact .refl
  | cons piece rest ih =>
      unfold Vocabulary.readEntities at read
      split at read
      · exact ih read
      · obtain ⟨⟨name, role⟩, _, read⟩ := bind_eq_ok_iff.mp read
        dsimp only at read
        split at read
        · cases read
        · rename_i added
          exact (Grows.refl.entity added).trans (ih read)

/-- Naming the fields of a collection is a sequence of declarations, by induction on the fields. -/
theorem grows_of_readFields {collection : Nat} {line : Line} {fields : List FieldDecl}
    (read : vocabulary.readFields collection line fields = .ok extended)
    : vocabulary.Grows extended := by
  induction fields generalizing vocabulary with
  | nil =>
      obtain rfl := Except.ok.inj read
      exact .refl
  | cons field rest ih =>
      unfold Vocabulary.readFields at read
      dsimp only at read
      split at read
      · cases read
      · rename_i added
        exact (Grows.refl.name added).trans (ih read)

/-- Reading an `items` declaration is a sequence of declarations: that of the collection, and those
of its fields.
-/
theorem grows_of_readItems {line : Line} {text : List Char} {decl : ItemsDecl}
    (read : ItemsDecl.read vocabulary line text = .ok (extended, decl))
    : vocabulary.Grows extended := by
  unfold ItemsDecl.read at read
  dsimp only at read
  split at read
  · cases read
  · split at read
    · obtain ⟨fields, _, read⟩ := bind_eq_ok_iff.mp read
      split at read
      · rename_i added
        obtain ⟨final, finalRead, done⟩ := bind_eq_ok_iff.mp read
        obtain ⟨rfl, _⟩ := Prod.mk.inj (Except.ok.inj done)
        exact (Grows.refl.collection added).trans (grows_of_readFields finalRead)
      · cases read
    · cases read

/-- Reading the `items` declarations among lines is a sequence of declarations, by induction on the
lines.
-/
theorem grows_of_readAllItems {lines : List Line} {items : List ItemsDecl}
    (read : ItemsDecl.readAll vocabulary lines = .ok (extended, items))
    : vocabulary.Grows extended := by
  induction lines generalizing vocabulary items with
  | nil =>
      obtain ⟨rfl, _⟩ := Prod.mk.inj (Except.ok.inj read)
      exact .refl
  | cons line rest ih =>
      unfold ItemsDecl.readAll at read
      split at read
      · exact ih read
      · obtain ⟨⟨next, decl⟩, declRead, read⟩ := bind_eq_ok_iff.mp read
        obtain ⟨⟨final, others⟩, othersRead, done⟩ := bind_eq_ok_iff.mp read
        obtain ⟨rfl, _⟩ := Prod.mk.inj (Except.ok.inj done)
        exact (grows_of_readItems declRead).trans (ih othersRead)

/-- Reading the variables among lines is a sequence of declarations, by induction on the lines. -/
theorem grows_of_readAllVariables {constants mutables : Nat} {lines : List Line}
    {declarations : List VariableDecl}
    (read
      : VariableDecl.readAll vocabulary constants mutables lines = .ok (extended, declarations))
    : vocabulary.Grows extended := by
  induction lines generalizing vocabulary constants mutables declarations with
  | nil =>
      obtain ⟨rfl, _⟩ := Prod.mk.inj (Except.ok.inj read)
      exact .refl
  | cons line rest ih =>
      unfold VariableDecl.readAll at read
      split at read
      · exact ih read
      · split at read
        · obtain ⟨decl, _, read⟩ := bind_eq_ok_iff.mp read
          split at read
          · rename_i next added
            obtain ⟨⟨final, others⟩, othersRead, done⟩ := bind_eq_ok_iff.mp read
            obtain ⟨rfl, _⟩ := Prod.mk.inj (Except.ok.inj done)
            exact (Grows.refl.name added).trans (ih othersRead)
          · cases read
        · cases read

end Vocabulary

namespace Domain

/-- Reading a section is a sequence of declarations, by cases on the section; actions and steps
declare nothing that has a name of storage.
-/
theorem grows_of_readSection {domain next : Domain} {part : DomainSection} {lines : List Line}
    (read : domain.readSection part lines = .ok next)
    : domain.vocabulary.Grows next.vocabulary := by
  cases part with
  | entities =>
      obtain ⟨vocabulary, entitiesRead, done⟩ := bind_eq_ok_iff.mp read
      obtain rfl := Except.ok.inj done
      exact Vocabulary.grows_of_readEntities entitiesRead
  | declarations =>
      obtain ⟨⟨collected, items⟩, itemsRead, read⟩ := bind_eq_ok_iff.mp read
      obtain ⟨⟨vocabulary, declarations⟩, declarationsRead, done⟩ := bind_eq_ok_iff.mp read
      obtain rfl := Except.ok.inj done
      exact (Vocabulary.grows_of_readAllItems itemsRead).trans
        (Vocabulary.grows_of_readAllVariables declarationsRead)
  | actions | environment | arrival =>
      obtain ⟨_, _, done⟩ := bind_eq_ok_iff.mp read
      obtain rfl := Except.ok.inj done
      exact .refl

/-- Reading sections is a sequence of declarations, by induction on the sections. -/
theorem grows_of_readSections {domain final : Domain} {sections : List SectionLines}
    (read : domain.readSections sections = .ok final)
    : domain.vocabulary.Grows final.vocabulary := by
  induction sections generalizing domain with
  | nil =>
      obtain rfl := Except.ok.inj read
      exact .refl
  | cons head rest ih =>
      obtain ⟨next, headRead, read⟩ := bind_eq_ok_iff.mp read
      exact (grows_of_readSection (LoadError.ok_of_inPart headRead)).trans (ih read)

/-- The parts of the vocabulary of an accepted domain agree, as it grew from the empty one by
declarations.
-/
theorem linked_of_ofText {source : List Char} {domain : Domain}
    (read : ofText source = .ok domain)
    : domain.vocabulary.Linked := by
  obtain ⟨lines, _, read⟩ := bind_eq_ok_iff.mp read
  obtain ⟨sections, _, read⟩ := bind_eq_ok_iff.mp read
  exact (grows_of_readSections read).linked Vocabulary.linked_empty

end Domain

end Dispatch
