import Dispatch.Proofs.Declarations.LinkedVocabulary
import Dispatch.Proofs.Evaluation.EvalFaults
import Dispatch.Proofs.Layout.SchemaLayout

/-!
Every name of a loaded domain stands for storage that exists in each well-formed state. Reading and
writing may still fail, at an index without a value or for an item that is not live, but never
because there is no variable, field or collection to look at; and a new item has all its fields.
-/

namespace Dispatch

/-- The domain is coherent, the parts of its vocabulary agree, and the schema lays it out. -/
structure Loaded (domain : Domain) (schema : Schema) : Prop where
  coherent : domain.Coherent
  linked : domain.vocabulary.Linked
  laysOut : schema.LaysOut domain

/-- An accepted problem of an accepted domain is loaded: the domain is coherent, the parts of its
vocabulary agree, and the schema lays out what was declared.
-/
theorem loaded_of_accepted {source : List Char} {domain : Domain} {problem : Problem}
    {schema : Schema} (read : Domain.ofText source = .ok domain)
    (laid : Schema.ofProblem domain problem = .ok schema)
    : Loaded domain schema := by
  have coherent := Domain.coherent_of_ofText read
  exact ⟨coherent, Domain.linked_of_ofText read, Schema.laysOut_of_ofProblem coherent laid⟩

/-- The domain of a text and the schema of a problem, where both are accepted. -/
def load? (source : List Char) (problem : Problem) : Option (Domain × Schema) := do
  let domain ← (Domain.ofText source).toOption
  let schema ← (Schema.ofProblem domain problem).toOption
  return (domain, schema)

/-- What is found by loading a text and a problem was accepted twice, as a domain and as a problem
of it.
-/
theorem accepted_of_load? {source : List Char} {problem : Problem} {domain : Domain}
    {schema : Schema} (found : load? source problem = some (domain, schema))
    : Domain.ofText source = .ok domain ∧ Schema.ofProblem domain problem = .ok schema := by
  obtain ⟨accepted, read, found⟩ := Option.bind_eq_some_iff.mp found
  obtain ⟨layout, laid, same⟩ := Option.bind_eq_some_iff.mp found
  obtain ⟨rfl, rfl⟩ := Prod.mk.inj (Option.some.inj same)
  exact ⟨ok_of_toOption read, ok_of_toOption laid⟩

/-- The error is that of a storage that does not exist or may not be written: a constant, a variable
or field without values, or an item of a collection that the schema does not have.
-/
def EvalError.OfStorage (schema : Schema) : EvalError → Prop
  | .readOnly _ | .undefinedStorage _ => True
  | .unknownItem name _ => ∀ layout ∈ schema.collections, layout.name ≠ name
  | _ => False

theorem EvalError.not_ofStorage_of_ofValues {schema : Schema} {error : EvalError}
    (values : error.OfValues)
    : ¬ error.OfStorage schema := by
  cases error <;> first | exact values.elim | exact id

namespace Loaded

variable {domain : Domain} {schema : Schema}

-----------------------------------------------------------------------------------------
-- Collections
-----------------------------------------------------------------------------------------

/-- A declared collection has its fields in the schema, at the position of its declaration. -/
theorem layout_of_decl (loaded : Loaded domain schema) {collection : Nat} {decl : ItemsDecl}
    (declared : domain.items[collection]? = some decl)
    : ∃ layout, schema.collections[collection]? = some layout ∧ layout.fields = decl.fields := by
  have found : (schema.collections.map (·.fields))[collection]? = some decl.fields := by
    rw [loaded.laysOut.collections, List.getElem?_map, declared, Option.map_some]
  rw [List.getElem?_map] at found
  exact Option.map_eq_some_iff.mp found

/-- A collection of the schema is a declared one with the same fields, so that the schema has no
collection of its own.
-/
theorem decl_of_layout (loaded : Loaded domain schema) {collection : Nat}
    {layout : CollectionLayout} (known : schema.collections[collection]? = some layout)
    : ∃ decl, domain.items[collection]? = some decl ∧ decl.fields = layout.fields := by
  have found : (domain.items.map (·.fields))[collection]? = some layout.fields := by
    rw [← loaded.laysOut.collections, List.getElem?_map, known, Option.map_some]
  rw [List.getElem?_map] at found
  exact Option.map_eq_some_iff.mp found

/-- The fields of a collection of the schema are numbered from zero, as the declared ones are. -/
theorem numbered (loaded : Loaded domain schema) {collection : Nat} {layout : CollectionLayout}
    (known : schema.collections[collection]? = some layout)
    : FieldDecl.Numbered 0 0 layout.fields := by
  obtain ⟨decl, declared, fields⟩ := loaded.decl_of_layout known
  rw [← fields]
  exact loaded.coherent.describes.fields decl (List.mem_of_getElem? declared)

/-- The collection of a dynamic entity type is laid out in the schema. -/
theorem layout_of_collection? (loaded : Loaded domain schema) {entity collection : Nat}
    (dynamic : domain.vocabulary.collection? entity = some collection)
    : ∃ layout, schema.collections[collection]? = some layout := by
  have owned := (loaded.linked.owned entity collection).mp dynamic
  obtain ⟨inside, _⟩ := List.getElem?_eq_some_iff.mp owned
  rw [loaded.coherent.describes.collections, List.length_map] at inside
  obtain ⟨layout, known, _⟩ := loaded.layout_of_decl (List.getElem?_eq_getElem inside)
  exact ⟨layout, known⟩

/-- The items of a collection have as many fields in the schema as the vocabulary says, which is
what the parser has checked the number of values against.
-/
theorem fieldCount_eq (loaded : Loaded domain schema) {collection : Nat}
    {layout : CollectionLayout} (known : schema.collections[collection]? = some layout)
    : domain.vocabulary.fieldCount collection = layout.fields.length := by
  obtain ⟨decl, declared, fields⟩ := loaded.decl_of_layout known
  simp only [Vocabulary.fieldCount, loaded.coherent.describes.fieldCounts, List.getElem?_map,
    declared, Option.map_some, Option.getD_some, fields]

/-- An item that is missing from a collection of the schema is no fault of storage: the error names
the collection, and it is there.
-/
theorem unknownItem_of_layout {collection : Nat} {layout : CollectionLayout}
    (known : schema.collections[collection]? = some layout) (id : Int)
    : ¬ (EvalError.unknownItem (schema.collectionName collection) id).OfStorage schema := by
  intro missing
  refine missing layout (List.mem_of_getElem? known) ?_
  simp only [Schema.collectionName, known, Option.map_some, Option.getD_some]

-----------------------------------------------------------------------------------------
-- Reading
-----------------------------------------------------------------------------------------

/-- A name stands for a declared place, so what the reader resolves is in the schema. -/
theorem declaredBy_of_place? (loaded : Loaded domain schema) {name : String} {place : Place}
    (named : domain.vocabulary.place? name = some place)
    : place.DeclaredBy domain.items domain.declarations := by
  obtain ⟨decl, found, rfl⟩ := Option.map_eq_some_iff.mp named
  exact loaded.coherent.describes.names decl (List.mem_of_find?_eq_some found)

/-- A declared field belongs to a collection of the schema, and its slot to every fitting item. -/
theorem slot_of_field (loaded : Loaded domain schema) {collection slot : Nat} {constant : Bool}
    (declared : (Place.field collection slot constant).DeclaredBy domain.items domain.declarations)
    : ∃ layout, schema.collections[collection]? = some layout
        ∧ slot < layout.fields.countP (·.constant = constant) := by
  obtain ⟨decl, found, below⟩ := declared
  obtain ⟨layout, known, fields⟩ := loaded.layout_of_decl found
  refine ⟨layout, known, ?_⟩
  rw [fields]
  exact below

/-- Reading a declared place of a well-formed state is no fault of storage, by cases on the place:
it fails only at an index that has no value, or at an item that is not live.
-/
theorem read_fails (loaded : Loaded domain schema) {store : Store}
    (formed : store.state.WellFormed schema) {place : Place}
    (declared : place.DeclaredBy domain.items domain.declarations) (name : String) (index : Int)
    : FailsOnly (¬ ·.OfStorage schema) (store.read schema place name index) := by
  cases place with
  | const slot =>
      have inside : slot < schema.constants.length := by rwa [loaded.laysOut.constants]
      simp only [Store.read, List.getElem?_eq_getElem inside, Option.map_some]
      split
      · exact .ok _
      · exact .error id
  | var slot =>
      have inside : slot < store.state.mutables.length := by
        rwa [formed.tables, loaded.laysOut.mutables]
      simp only [Store.read, List.getElem?_eq_getElem inside]
      split
      · exact .ok _
      · exact .error id
  | field collection slot constant =>
      obtain ⟨layout, known, below⟩ := loaded.slot_of_field declared
      unfold Store.read
      dsimp only
      split
      · exact .error (unknownItem_of_layout known _)
      · rename_i item live
        obtain ⟨items, present, live⟩ := Option.bind_eq_some_iff.mp live
        have fits := formed.items collection layout items known present index item live
        split
        · exact .ok _
        · rename_i missing
          exfalso
          cases constant with
          | true =>
              have inside : slot < item.constants.length := by
                rw [fits.constants]
                simpa using below
              simp [Item.field?, inside] at missing
          | false =>
              have inside : slot < item.mutables.length := by
                rw [fits.mutables]
                simpa using below
              simp [Item.field?, inside] at missing

-----------------------------------------------------------------------------------------
-- Writing
-----------------------------------------------------------------------------------------

/-- Writing to a declared place of a well-formed state that is not constant is no fault of storage,
by cases on what the check comes to.
-/
theorem checkWrite_fails (loaded : Loaded domain schema) {state : State}
    (formed : state.WellFormed schema) {place : Place}
    (declared : place.DeclaredBy domain.items domain.declarations)
    (mutable : place.isConstant = false) (name : String) (index : Int) (value : Value)
    : FailsOnly (¬ ·.OfStorage schema) (state.checkWrite schema place name index value) := by
  rcases State.checkWrite_cases schema state place name index value
    with ⟨constant, _⟩ | ⟨_, _, refused⟩ | ⟨_, _, checked⟩
  · rw [mutable] at constant
    cases constant
  · rw [refused]
    exact .error id
  · rw [checked]
    unfold State.checkTarget
    cases place with
    | const slot => cases mutable
    | var slot =>
        have inside : slot < state.mutables.length := by
          rwa [formed.tables, loaded.laysOut.mutables]
        simp only [List.getElem?_eq_getElem inside]
        split
        · exact .error id
        · exact .ok _
    | field collection slot constant =>
        obtain rfl : constant = false := mutable
        obtain ⟨layout, known, below⟩ := loaded.slot_of_field declared
        dsimp only
        split
        · rename_i items present
          split
          · rename_i item live
            have fits := formed.items collection layout items known present index item live
            have inside : slot < item.mutables.length := by
              rw [fits.mutables]
              simpa using below
            rw [if_neg (by omega)]
            exact .ok _
          · exact .error (unknownItem_of_layout known _)
        · exact .error (unknownItem_of_layout known _)

-----------------------------------------------------------------------------------------
-- New items
-----------------------------------------------------------------------------------------

/-- A new item of as many fields as declared fits its collection, since each value was checked
against the kind of its field when the item was made.
-/
theorem fits_of_newItem (loaded : Loaded domain schema) {store : Store} {collection : Nat}
    {fields : List Expr} {item : Item}
    (complete : fields.length = domain.vocabulary.fieldCount collection)
    (built : store.newItem schema collection fields = .ok item) (layout : CollectionLayout)
    (known : schema.collections[collection]? = some layout)
    : item.Fits schema collection layout := by
  obtain ⟨other, values, found, evaluated, rowBuilt⟩ := Store.row_of_newItem built
  obtain rfl := Option.some.inj (known.symm.trans found)
  have counted := complete.trans (loaded.fieldCount_eq known)
  have filled :=
    CollectionLayout.filled_of_row (Expr.forall₂_of_evalAll evaluated) counted rowBuilt
  exact (filled.kinded fun _ _ _ given => given.2).fits (loaded.numbered known) known

end Loaded

end Dispatch
