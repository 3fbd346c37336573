import Dispatch.Domain
import Dispatch.Items

/-!
The layout of a loaded problem: how the instances of each entity type are stored, the values of the
constants, the initial state and the items that arrive later.
-/

namespace Dispatch

/-- How the instances of an entity type are identified. -/
inductive EntityStorage where
  /-- By the ids below a count. -/
  | positional (count : Int)
  /-- By the live ids of an item collection. -/
  | dynamic (collection : Nat)
deriving DecidableEq

structure EntityLayout where
  name : String
  role : Option String
  storage : EntityStorage
deriving DecidableEq

/-- A variable with its number of values. -/
structure VariableLayout where
  decl : VariableDecl
  length : Nat
deriving DecidableEq

structure VariableTable where
  layout : VariableLayout
  values : Array Value
deriving DecidableEq

/-- The fields of the items of a collection, in order of declaration. -/
structure CollectionLayout where
  name : String
  entity : Nat
  fields : List FieldDecl
deriving DecidableEq

structure NewItem where
  collection : Nat
  item : Item
deriving DecidableEq

/-- The values of all mutable variables, by slot, and all item collections. -/
structure State where
  mutables : List (Array Value)
  collections : List Items
deriving DecidableEq

/-- The layout of a problem, its initial state, and the batches of items that arrive later. -/
structure Schema where
  entities : List EntityLayout
  constants : List VariableTable
  mutables : List VariableLayout
  collections : List CollectionLayout
  names : List (String × Place)
  initial : State
  batches : List (List NewItem)
deriving DecidableEq

namespace CollectionLayout

/-- The item made of values in order of declaration; a value of another kind than its field is
reported by the field.
-/
def row : List FieldDecl → List Value → Except FieldDecl Item
  | field :: fields, value :: values =>
      if value.hasKind field.kind then do
        let item ← row fields values
        return if field.constant then { item with constants := value :: item.constants }
          else { item with mutables := value :: item.mutables }
      else .error field
  | _, _ => .ok ⟨[], []⟩

/-- The value of the first field of an item, which tells the entity that holds it. -/
def holder? (layout : CollectionLayout) (item : Item) : Option Value :=
  layout.fields.head?.bind fun field => item.field? field.constant field.slot

end CollectionLayout

namespace Schema

def storage? (schema : Schema) (entity : Nat) : Option EntityStorage :=
  schema.entities[entity]?.map (·.storage)

/-- The index of the entity type with a name. -/
def entity? (schema : Schema) (name : String) : Option Nat :=
  schema.entities.findIdx? (·.name = name)

/-- The place of a variable or field. -/
def place? (schema : Schema) (name : String) : Option Place :=
  (schema.names.find? (·.1 = name)).map (·.2)

/-- The declared kind of what is stored at a place. -/
def kind? (schema : Schema) : Place → Option Kind
  | .const slot => schema.constants[slot]?.map (·.layout.decl.kind)
  | .var slot => schema.mutables[slot]?.map (·.decl.kind)
  | .field collection slot constant => do
      let layout ← schema.collections[collection]?
      let field ← layout.fields.find? fun field => field.constant = constant && field.slot = slot
      return field.kind

/-- The name of a collection in messages. -/
def collectionName (schema : Schema) (collection : Nat) : String :=
  (schema.collections[collection]?.map (·.name)).getD ""

end Schema

namespace State

/-- The ids of an entity type, ascending. -/
def ids (state : State) (schema : Schema) (entity : Nat) : List Int :=
  match schema.storage? entity with
  | some (.positional count) => (List.range count.toNat).map Int.ofNat
  | some (.dynamic collection) =>
      match state.collections[collection]? with
      | some items => items.ids
      | none => []
  | none => []

/-- The number of ids of an entity type. -/
def idCount (state : State) (schema : Schema) (entity : Nat) : Nat :=
  match schema.storage? entity with
  | some (.positional count) => count.toNat
  | some (.dynamic collection) =>
      (state.collections[collection]?.map (·.ids.length)).getD 0
  | none => 0

/-- Whether an id of an entity type is in use. -/
def hasId (state : State) (schema : Schema) (entity : Nat) (id : Int) : Bool :=
  match schema.storage? entity with
  | some (.positional count) => 0 ≤ id && id < count
  | some (.dynamic collection) =>
      match state.collections[collection]? with
      | some items => items.contains id
      | none => false
  | none => false

def modifyCollection (state : State) (collection : Nat) (change : Items → Items) : State :=
  { state with collections := state.collections.modify collection change }

/-- The state with an item added to its collection. -/
def addItem (state : State) (added : NewItem) : State :=
  state.modifyCollection added.collection (·.insert added.item)

/-- The state with items added in order. -/
def addItems (state : State) (added : List NewItem) : State := added.foldl addItem state

end State

end Dispatch
