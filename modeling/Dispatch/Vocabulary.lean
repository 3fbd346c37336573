import Dispatch.Kind

/-!
The names that a domain declares: entity types, the item collections of dynamic entity types, and
variables and item fields with their storage. Entity types and collections are numbered in order of
declaration, and their numbers are kept where they are looked up: with the names, with the entity
types, and with the collections. A declaration changes all of them together.
-/

namespace Dispatch

/-- Where the values of a variable or an item field are stored. -/
inductive Place where
  | const (slot : Nat)
  | var (slot : Nat)
  | field (collection slot : Nat) (constant : Bool)
deriving DecidableEq

/-- Whether writing to the place is refused. -/
def Place.isConstant : Place → Bool
  | .const _ => true
  | .var _ => false
  | .field _ _ constant => constant

/-- A declared entity type and the line of its declaration. -/
structure EntityDecl where
  name : String
  /-- The number of entity types that were declared before. -/
  index : Nat
  role : Option String
  /-- The collection of its items, where the entity type is dynamic. -/
  collection : Option Nat
  line : Nat
deriving DecidableEq

structure NameDecl where
  name : String
  place : Place
  kind : Kind
deriving DecidableEq

/-- The names of a domain, in order of declaration. -/
structure Vocabulary where
  entities : List EntityDecl
  /-- The indices of the entity types by their names. -/
  indices : List (String × Nat)
  /-- The entity type of each item collection. -/
  collections : List Nat
  /-- The number of fields of the items of each collection. -/
  fieldCounts : List Nat
  names : List NameDecl
deriving DecidableEq

namespace Vocabulary

def empty : Vocabulary := ⟨[], [], [], [], []⟩

/-- The index of the entity type with the given name. -/
def entity? (vocabulary : Vocabulary) (name : String) : Option Nat :=
  (vocabulary.indices.find? (·.1 = name)).map (·.2)

/-- The name of an entity type, `?` where there is none. -/
def entityName (vocabulary : Vocabulary) (index : Nat) : String :=
  (vocabulary.entities[index]?.map (·.name)).getD "?"

/-- The collection of a dynamic entity type. -/
def collection? (vocabulary : Vocabulary) (entity : Nat) : Option Nat :=
  vocabulary.entities[entity]?.bind (·.collection)

/-- The number of fields of each item of a collection, zero where there is no such collection. -/
def fieldCount (vocabulary : Vocabulary) (collection : Nat) : Nat :=
  (vocabulary.fieldCounts[collection]?).getD 0

/-- The declaration of a variable or field name. -/
def name? (vocabulary : Vocabulary) (name : String) : Option NameDecl :=
  vocabulary.names.find? (·.name = name)

/-- The storage of a variable or field. -/
def place? (vocabulary : Vocabulary) (name : String) : Option Place :=
  (vocabulary.name? name).map (·.place)

/-- The kind of a variable or field. -/
def kind? (vocabulary : Vocabulary) (name : String) : Option Kind :=
  (vocabulary.name? name).map (·.kind)

/-- Declares an entity type, unless the name is taken. -/
def addEntity? (vocabulary : Vocabulary) (name : String) (role : Option String) (line : Nat)
    : Option Vocabulary :=
  if (vocabulary.entity? name).isSome then none
  else
    let index := vocabulary.entities.length
    some { vocabulary with
      indices := vocabulary.indices ++ [(name, index)]
      entities := vocabulary.entities ++ [⟨name, index, role, none, line⟩] }

/-- Makes a declared entity type dynamic, unless it already is. -/
def addCollection? (vocabulary : Vocabulary) (entity fieldCount : Nat) : Option Vocabulary :=
  match vocabulary.entities[entity]? with
  | none => none
  | some decl =>
      if decl.collection.isSome then none
      else
        let collection := vocabulary.collections.length
        some { vocabulary with
          entities := vocabulary.entities.set entity { decl with collection := some collection }
          collections := vocabulary.collections ++ [entity]
          fieldCounts := vocabulary.fieldCounts ++ [fieldCount] }

/-- Declares a variable or field, unless the name is taken. -/
def addName? (vocabulary : Vocabulary) (name : String) (place : Place) (kind : Kind)
    : Option Vocabulary :=
  if (vocabulary.name? name).isSome then none
  else some { vocabulary with names := vocabulary.names ++ [⟨name, place, kind⟩] }

end Vocabulary

end Dispatch
