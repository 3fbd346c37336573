import Dispatch.Scope
import Dispatch.Update

/-!
Domains: the declared entity types, variables and item collections, the actions with inheritance
resolved, and the steps that run without an actor.
-/

namespace Dispatch

/-- A declared variable, with a value for each index of its owner or a single value. -/
structure VariableDecl where
  name : String
  kind : Kind
  constant : Bool
  owner : Option Nat
  role : Option String
  /-- The position among the variables that are as constant as this one. -/
  slot : Nat
  line : Nat
deriving DecidableEq

def VariableDecl.place (decl : VariableDecl) : Place :=
  if decl.constant then .const decl.slot else .var decl.slot

structure FieldDecl where
  name : String
  kind : Kind
  constant : Bool
  /-- The position among the fields that are as constant as this one. -/
  slot : Nat
deriving DecidableEq

/-- The declared items of a dynamic entity type. -/
structure ItemsDecl where
  entity : Nat
  collection : Nat
  fields : List FieldDecl
  line : Nat
deriving DecidableEq

/-- The number of fields that are constant, or that are not. -/
def ItemsDecl.count (items : ItemsDecl) (constant : Bool) : Nat :=
  items.fields.countP (·.constant = constant)

structure ParameterDecl where
  name : String
  entity : Nat
deriving DecidableEq

/-- An action. The position of a parameter is its slot, and the first parameter is the actor. -/
structure ActionDecl where
  name : String
  /-- A tag that names no earlier action. -/
  base : Option String
  /-- The action from which this one inherits. -/
  parent : Option String
  parameters : List ParameterDecl
  preconditions : List Expr
  conflicts : List Expr
  effects : List Update
  cost : Cost
  line : Nat

/-- Effects that run without an actor, and their cost. -/
structure StepDecl where
  name : String
  effects : List Update
  cost : Cost
  line : Nat

structure Domain where
  vocabulary : Vocabulary
  declarations : List VariableDecl
  items : List ItemsDecl
  actions : List ActionDecl
  /-- The steps that run after every joint step of the actors. -/
  environment : List StepDecl
  /-- The steps that run when a batch of items has arrived. -/
  arrival : List StepDecl

namespace Domain

def empty : Domain := ⟨.empty, [], [], [], [], []⟩

def action? (domain : Domain) (name : String) : Option ActionDecl :=
  domain.actions.find? (·.name = name)

end Domain

end Dispatch
