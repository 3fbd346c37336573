import Dispatch.Problem
import Dispatch.Schema
import Dispatch.Schema.Error

/-!
Laying out a problem against its domain: counts of entity types, values of variables, rows of items
and later batches, in this order, the first misfit being the error.
-/

namespace Dispatch

namespace StartEntry

def find? (entries : List StartEntry) (name : String) : Option StartEntry :=
  entries.find? (·.name = name)

/-- Refuses a name that has two entries. -/
def checkDistinct (seen : List String) : List StartEntry → Except SchemaError Unit
  | [] => .ok ()
  | entry :: rest =>
      if seen.contains entry.name then .error ⟨entry.name, entry.line, .duplicateEntry⟩
      else checkDistinct (entry.name :: seen) rest

/-- The number of instances that the entry of an entity type gives: one value without an index that
is not negative.
-/
def count (entry : StartEntry) : Except SchemaError Int :=
  match entry.values with
  | [⟨none, .int value, _⟩] =>
      if 0 ≤ value then .ok value else .error ⟨entry.name, entry.line, .invalidCount⟩
  | _ => .error ⟨entry.name, entry.line, .invalidCount⟩

end StartEntry

/-- The value of a kind that a given literal denotes. -/
def Literal.valueFor (literal : Literal) (name : String) (kind : Kind) (line : Nat)
    : Except SchemaError Value :=
  match Value.ofLiteral? literal kind with
  | some value => .ok value
  | none => .error ⟨name, line, .kindMismatch kind literal⟩

namespace EntityLayout

/-- The layout of an entity type; one without a count has no instances. -/
def ofDecl (entries : List StartEntry) (decl : EntityDecl) : Except SchemaError EntityLayout :=
  match decl.collection with
  | some collection => .ok ⟨decl.name, decl.role, .dynamic collection⟩
  | none =>
      match StartEntry.find? entries decl.name with
      | none => .ok ⟨decl.name, decl.role, .positional 0⟩
      | some entry => do
          let count ← entry.count
          return ⟨decl.name, decl.role, .positional count⟩

/-- The layouts of entity types, in order of declaration. -/
def ofDecls (entries : List StartEntry)
    : List EntityDecl → Except SchemaError (List EntityLayout)
  | [] => .ok []
  | decl :: rest => do
      let layout ← ofDecl entries decl
      let layouts ← ofDecls entries rest
      return layout :: layouts

/-- The collection of the dynamic entity type with a name. -/
def collectionNamed? (layouts : List EntityLayout) (name : String) : Option Nat :=
  match (layouts.find? (·.name = name)).map EntityLayout.storage with
  | some (.dynamic collection) => some collection
  | _ => none

end EntityLayout

namespace VariableLayout

/-- The layout of a variable: a value for each instance of its owner, or one value. -/
def ofDecl (entities : List EntityLayout) (decl : VariableDecl) : VariableLayout :=
  match (decl.owner.bind (entities[·]?)).map EntityLayout.storage with
  | some (.positional count) => ⟨decl, count.toNat⟩
  | _ => ⟨decl, 1⟩

/-- The value of a variable that a literal gives. -/
def convert (layout : VariableLayout) (given : StartValue) : Except SchemaError Value :=
  given.literal.valueFor layout.decl.name layout.decl.kind given.line

/-- Writes given values over the present ones. A value without an index goes to the position after
the one before it, `next` at first.
-/
def write (layout : VariableLayout) (next : Nat) (values : Array Value)
    : List StartValue → Except SchemaError (Array Value)
  | [] => .ok values
  | given :: rest => do
      let position := given.index.getD next
      if layout.length ≤ position then
        throw ⟨layout.decl.name, given.line, .indexOutOfRange position layout.length⟩
      let value ← layout.convert given
      layout.write (position + 1) (values.setIfInBounds position value) rest

/-- The value of the kind for every position. -/
def defaults (layout : VariableLayout) : Array Value :=
  Array.replicate layout.length (Value.initial layout.decl.kind)

/-- The initial values that an entry gives a variable. A single value without an index is the value
of every position; otherwise values without indices alone must be as many as there are positions.
-/
def fill (layout : VariableLayout) (entry : StartEntry) : Except SchemaError (Array Value) :=
  match entry.values with
  | [⟨none, literal, line⟩] => do
      let value ← layout.convert ⟨none, literal, line⟩
      return Array.replicate layout.length value
  | given =>
      if given ≠ [] && given.all (·.index.isNone) && given.length ≠ layout.length then
        .error ⟨layout.decl.name, entry.line, .shapeMismatch layout.length given.length⟩
      else layout.write 0 layout.defaults given

/-- The initial values of a variable, defaults where no entry gives them. -/
def initial (layout : VariableLayout) (entries : List StartEntry)
    : Except SchemaError (Array Value) :=
  match StartEntry.find? entries layout.decl.name with
  | none => .ok layout.defaults
  | some entry => layout.fill entry

end VariableLayout

/-- Variables with their values, in order of declaration. -/
def VariableTable.ofDecls (entities : List EntityLayout) (entries : List StartEntry)
    : List VariableDecl → Except SchemaError (List VariableTable)
  | [] => .ok []
  | decl :: rest => do
      let layout := VariableLayout.ofDecl entities decl
      let values ← layout.initial entries
      let tables ← ofDecls entities entries rest
      return ⟨layout, values⟩ :: tables

namespace CollectionLayout

/-- The item that literals in order of declaration give. -/
def itemOf (line : Nat) : List FieldDecl → List Literal → Except SchemaError Item
  | field :: fields, literal :: literals => do
      let value ← literal.valueFor field.name field.kind line
      let item ← itemOf line fields literals
      return if field.constant then { item with constants := value :: item.constants }
        else { item with mutables := value :: item.mutables }
  | _, _ => .ok ⟨[], []⟩

/-- The item of a row; a row that is no list gives a single field. -/
def ofRow (layout : CollectionLayout) (given : StartValue) : Except SchemaError Item := do
  let literals :=
    match given.literal with
    | .tuple fields => fields
    | single => [single]
  if literals.length ≠ layout.fields.length then
    throw ⟨layout.name, given.line, .fieldCount layout.fields.length literals.length⟩
  itemOf given.line layout.fields literals

def ofRows (layout : CollectionLayout) : List StartValue → Except SchemaError (List Item)
  | [] => .ok []
  | given :: rest => do
      let item ← layout.ofRow given
      let items ← layout.ofRows rest
      return item :: items

end CollectionLayout

namespace NewItem

/-- The items that an entry adds to a collection. -/
def ofEntry (collections : List CollectionLayout) (collection : Nat) (entry : StartEntry)
    : Except SchemaError (List NewItem) :=
  match collections[collection]? with
  | none => .ok []
  | some layout => do
      let items ← layout.ofRows entry.values
      return items.map fun item => ⟨collection, item⟩

/-- The items that the entries of the start add; entries of other names add none. -/
def ofEntries (entities : List EntityLayout) (collections : List CollectionLayout)
    : List StartEntry → Except SchemaError (List NewItem)
  | [] => .ok []
  | entry :: rest => do
      let items ←
        match EntityLayout.collectionNamed? entities entry.name with
        | none => pure []
        | some collection => ofEntry collections collection entry
      let more ← ofEntries entities collections rest
      return items ++ more

/-- The items that a later batch adds; only items may arrive. -/
def ofBatch (entities : List EntityLayout) (collections : List CollectionLayout)
    : List StartEntry → Except SchemaError (List NewItem)
  | [] => .ok []
  | entry :: rest => do
      let some collection := EntityLayout.collectionNamed? entities entry.name
        | throw ⟨entry.name, entry.line, .scalarInBatch⟩
      let items ← ofEntry collections collection entry
      let more ← ofBatch entities collections rest
      return items ++ more

def ofBatches (entities : List EntityLayout) (collections : List CollectionLayout)
    : List (List StartEntry) → Except SchemaError (List (List NewItem))
  | [] => .ok []
  | batch :: rest => do
      let items ← ofBatch entities collections batch
      let batches ← ofBatches entities collections rest
      return items :: batches

end NewItem

namespace Schema

/-- Refuses an entry whose name is an item field or is not declared. -/
def checkNames (entities : List EntityLayout) (names : List (String × Place))
    : List StartEntry → Except SchemaError Unit
  | [] => .ok ()
  | entry :: rest =>
      match (names.find? (·.1 = entry.name)).map Prod.snd with
      | some (.field _ _ _) => .error ⟨entry.name, entry.line, .fieldInitialized⟩
      | some _ => checkNames entities names rest
      | none =>
          if entities.any (·.name = entry.name) then checkNames entities names rest
          else .error ⟨entry.name, entry.line, .unknownName⟩

/-- The names of constants or of mutable variables, from the given slot on. -/
def variableNames (place : Nat → Place) (slot : Nat)
    : List VariableTable → List (String × Place)
  | [] => []
  | table :: rest => (table.layout.decl.name, place slot) :: variableNames place (slot + 1) rest

/-- The names of the fields of collections, from the given index on. -/
def fieldNames (collection : Nat) : List CollectionLayout → List (String × Place)
  | [] => []
  | layout :: rest =>
      layout.fields.map (fun field =>
        (field.name, .field collection field.slot field.constant))
        ++ fieldNames (collection + 1) rest

/-- The layouts of the declared items, in order of their collections. -/
def collectionLayouts (entities : List EntityLayout) (items : List ItemsDecl)
    : List CollectionLayout :=
  (items.mergeSort fun one other => one.collection ≤ other.collection).map fun decl =>
    ⟨(entities[decl.entity]?.map (·.name)).getD "", decl.entity, decl.fields⟩

/-- Lays out a problem against its domain. -/
def ofProblem (domain : Domain) (problem : Problem) : Except SchemaError Schema := do
  StartEntry.checkDistinct [] problem.initial
  let entities ← EntityLayout.ofDecls problem.initial domain.vocabulary.entities
  let collections := collectionLayouts entities domain.items
  let tables ← VariableTable.ofDecls entities problem.initial domain.declarations
  let constants := tables.filter (·.layout.decl.constant)
  let mutables := tables.filter (!·.layout.decl.constant)
  let names := variableNames .const 0 constants ++ variableNames .var 0 mutables
    ++ fieldNames 0 collections
  checkNames entities names problem.initial
  let items ← NewItem.ofEntries entities collections problem.initial
  let batches ← NewItem.ofBatches entities collections problem.iterations
  let blank : State := ⟨mutables.map (·.values), collections.map fun _ => .empty⟩
  return {
    entities, constants, collections, names, batches
    mutables := mutables.map (·.layout)
    initial := blank.addItems items }

end Schema

end Dispatch
